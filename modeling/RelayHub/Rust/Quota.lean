import Mathlib.Algebra.BigOperators.Group.List.Basic
import Mathlib.Algebra.GroupWithZero.Nat
import RelayHub.Lib.Mealy
import RelayHub.Rust.Rows

/-! # RelayHub Rust backend — the quota of a workspace

The trigger charges a workspace for each delivery that is inserted, and releases the charge when the delivery becomes
terminal. Every caller writes `deliveries` by INSERTs and UPDATEs, so a transaction is a list of such statements with
any values: `publish_legacy` inserts several deliveries, `expire_deliveries` updates several. It keeps the locks of the
rows that it writes to its end. Deliveries are never deleted; the number of one is its place in the table. -/

namespace RelayHub.Rust

open List

@[ext] structure Quota where
  outstandingDeliveries : Nat := 0
  outstandingPayloadBytes : Nat := 0
  deriving DecidableEq

instance : Add Quota where
  add q q' := ⟨q.outstandingDeliveries + q'.outstandingDeliveries,
    q.outstandingPayloadBytes + q'.outstandingPayloadBytes⟩

@[simp] theorem Quota.add_deliveries (q q' : Quota) :
    (q + q').outstandingDeliveries = q.outstandingDeliveries + q'.outstandingDeliveries := rfl

@[simp] theorem Quota.add_bytes (q q' : Quota) :
    (q + q').outstandingPayloadBytes = q.outstandingPayloadBytes + q'.outstandingPayloadBytes := rfl

/-- The CHECKs of `workspace_quotas`. -/
def Quota.Bounded (q : Quota) : Prop := q.outstandingDeliveries ≤ 10000 ∧ q.outstandingPayloadBytes ≤ 104857600

structure Store where
  deliveries : List Row
  /-- `workspace_quotas`. -/
  quotas : Uuid → Option Quota

def Store.quota (s : Store) (w : Uuid) : Quota := (s.quotas w).getD {}

def Store.setQuota (s : Store) (w : Uuid) (q : Quota) : Store :=
  { s with quotas := Function.update s.quotas w (some q) }

/-- What the trigger does to the quota on an INSERT. -/
def Quota.charge (q : Quota) (payloadBytes : Nat) : Option Quota :=
  if q.outstandingDeliveries < 10000 ∧ q.outstandingPayloadBytes + payloadBytes ≤ 104857600 then
    some ⟨q.outstandingDeliveries + 1, q.outstandingPayloadBytes + payloadBytes⟩
  else none

def Store.charge (s : Store) (row : Row) : Option Store :=
  ((s.quota row.workspaceId).charge row.payloadBytes).map (s.setQuota row.workspaceId)

/-- The trigger on an UPDATE that makes a delivery terminal, with the CHECKs of the quota. -/
def Store.release (s : Store) (row : Row) : Option Store :=
  match s.quotas row.workspaceId with
  | none => some s
  | some q =>
    if 1 ≤ q.outstandingDeliveries ∧ row.payloadBytes ≤ q.outstandingPayloadBytes then
      some (s.setQuota row.workspaceId ⟨q.outstandingDeliveries - 1, q.outstandingPayloadBytes - row.payloadBytes⟩)
    else none

/-- What the trigger does to the quota on an UPDATE. -/
def Store.account (s : Store) (old row : Row) : Option Store :=
  if old.terminalAt = none ∧ row.terminalAt ≠ none then s.release old else some s

inductive Statement where
  | insert (row : Row)
  | update (n : Nat) (new : Row) (now : Int)

def Store.exec (s : Store) : Statement → Option Store
  | .insert row =>
    if row.state ≠ .pending ∨ row.terminalAt ≠ none then none
    else (s.charge row).map fun s => { s with deliveries := s.deliveries ++ [row] }
  | .update n new now => do
    let old ← s.deliveries[n]?
    let row ← accountUpdate now old new
    let s ← s.account old row
    return { s with deliveries := s.deliveries.set n row }

structure Transaction where
  statements : List Statement
  aborted : Bool

def store : Mealy Store Transaction Bool where
  exec s t :=
    match t.statements.foldlM Store.exec s with
    | some s' => if t.aborted then (false, s) else (true, s')
    | none => (false, s)

/-! ## The quota is exact -/

/-- The outstanding deliveries of a workspace. -/
def outstanding (w : Uuid) (rows : List Row) : List Row :=
  rows.filter fun row => row.workspaceId = w ∧ row.terminalAt = none

/-- What they amount to. -/
def owed (w : Uuid) (rows : List Row) : Quota :=
  ⟨(outstanding w rows).length, ((outstanding w rows).map (·.payloadBytes)).sum⟩

structure Exact (s : Store) : Prop where
  quota : ∀ w, s.quota w = owed w s.deliveries
  bounded : ∀ w, (s.quota w).Bounded
  coherent : ∀ row ∈ s.deliveries, row.Coherent

/-- The deliveries are still there, and those that are terminal are as they were. -/
def Continues (s s' : Store) : Prop :=
  ∀ (n : Nat) (row : Row), s.deliveries[n]? = some row → ∃ row', s'.deliveries[n]? = some row' ∧
    (row.state.terminal = true → row'.state = row.state)

theorem Continues.refl (s : Store) : Continues s s := fun _ row h => ⟨row, h, fun _ => rfl⟩

theorem Continues.trans {s s₁ s₂ : Store} (h : Continues s s₁) (h' : Continues s₁ s₂) : Continues s s₂ := by
  intro n row hrow
  obtain ⟨row₁, hrow₁, hkept⟩ := h n row hrow
  obtain ⟨row₂, hrow₂, hkept'⟩ := h' n row₁ hrow₁
  exact ⟨row₂, hrow₂, fun hterminal => (hkept' (hkept hterminal ▸ hterminal)).trans (hkept hterminal)⟩

variable {s s' : Store} {w : Uuid} {row : Row}

/-- What the workspace is charged for a delivery that is not terminal. -/
def Row.charge (row : Row) (w : Uuid) : Quota := if row.workspaceId = w then ⟨1, row.payloadBytes⟩ else ⟨0, 0⟩

/-- What a workspace owes, around one delivery. -/
theorem owed_append (as bs : List Row) (row : Row) :
    owed w (as ++ row :: bs) = (if row.terminalAt = none then row.charge w else ⟨0, 0⟩) + owed w (as ++ bs) := by
  unfold owed outstanding Row.charge
  by_cases hw : row.workspaceId = w <;> by_cases hd : row.terminalAt = none <;>
    ext <;> simp [hw, hd] <;> omega

theorem quota_setQuota (s : Store) (w w' : Uuid) (q : Quota) :
    (s.setQuota w q).quota w' = if w' = w then q else s.quota w' := by
  unfold Store.quota Store.setQuota
  by_cases h : w' = w <;> simp [h]

/-- An INSERT that the quota admits charges the workspace of the delivery, and no other one. -/
theorem charge_eq_some (h : s.charge row = some s') (w : Uuid) : s'.deliveries = s.deliveries ∧
    s'.quota w = row.charge w + s.quota w ∧ ((s.quota w).Bounded → (s'.quota w).Bounded) := by
  obtain ⟨q, hq, rfl⟩ := Option.map_eq_some_iff.mp h
  obtain ⟨hroom, ⟨⟩⟩ := Option.ite_none_right_eq_some.mp hq
  refine ⟨rfl, ?_⟩
  rw [quota_setQuota, Row.charge]
  by_cases hw : w = row.workspaceId
  · subst hw
    rw [if_pos rfl]
    exact ⟨by ext <;> simp <;> omega, fun _ => ⟨hroom.1, hroom.2⟩⟩
  · rw [if_neg hw, if_neg (Ne.symm hw)]
    exact ⟨by ext <;> simp, id⟩

theorem release_eq_some (h : s.release row = some s') (hpos : 1 ≤ (s.quota row.workspaceId).outstandingDeliveries)
    (w : Uuid) : s'.deliveries = s.deliveries ∧ row.charge w + s'.quota w = s.quota w := by
  unfold Store.release at h
  split at h
  next hnone => simp [Store.quota, hnone] at hpos
  next hq =>
  split at h
  next hroom =>
    cases h
    refine ⟨rfl, ?_⟩
    rw [quota_setQuota, Row.charge]
    by_cases hw : w = row.workspaceId
    · subst hw
      ext <;> simp [Store.quota, hq] <;> omega
    · rw [if_neg hw, if_neg (Ne.symm hw)]
      ext <;> simp
  · cases h

/-- **An INSERT keeps the quota exact.** -/
theorem Exact.insert (hs : Exact s) (h : s.exec (.insert row) = some s') : Exact s' ∧ Continues s s' := by
  unfold Store.exec at h
  simp only at h
  split at h
  · cases h
  next hnew =>
  push Not at hnew
  obtain ⟨s₁, hcharge, rfl⟩ := Option.map_eq_some_iff.mp h
  have hcharged := charge_eq_some hcharge
  refine ⟨⟨fun w => ?_, fun w => (hcharged w).2.2 (hs.bounded w), fun x hx => ?_⟩, fun n x hx => ?_⟩
  · rw [owed_append, append_nil, (hcharged w).1, ← hs.quota, if_pos hnew.2]
    exact (hcharged w).2.1
  · rcases mem_append.mp hx with hx | hx
    · exact hs.coherent x ((hcharged 0).1 ▸ hx)
    · obtain rfl := mem_singleton.mp hx
      simp [Row.Coherent, hnew, DeliveryState.terminal]
  · refine ⟨x, ?_, fun _ => rfl⟩
    rw [(hcharged 0).1, List.getElem?_append_left (List.getElem?_eq_some_iff.mp hx).1]
    exact hx

theorem exists_split_of_getElem? {α : Type} {xs : List α} {n : Nat} {x : α} (h : xs[n]? = some x) :
    ∃ as bs, xs = as ++ x :: bs ∧ ∀ y, xs.set n y = as ++ y :: bs := by
  obtain ⟨hn, rfl⟩ := List.getElem?_eq_some_iff.mp h
  refine ⟨xs.take n, xs.drop (n + 1), ?_, fun y => ?_⟩
  · rw [← List.drop_eq_getElem_cons hn, List.take_append_drop]
  · rw [List.set_eq_take_append_cons_drop, if_pos hn]

/-- **An UPDATE keeps the quota exact.** -/
theorem Exact.update {n : Nat} {new : Row} {now : Int} (hs : Exact s) (h : s.exec (.update n new now) = some s') :
    Exact s' ∧ Continues s s' := by
  simp only [Store.exec, Option.bind_eq_bind, Option.bind_eq_some_iff] at h
  obtain ⟨old, hn, row, hrow, s₁, haccount, h⟩ := h
  cases h
  have hmem := mem_of_getElem? hn
  have hold := hs.coherent old hmem
  obtain ⟨hcoherent, hidentity, -, hkept⟩ := accountUpdate_eq_some hrow hold
  have hcharge : ∀ w, row.charge w = old.charge w := by
    simp only [Row.identity, Prod.mk.injEq] at hidentity
    intro w
    rw [Row.charge, Row.charge, hidentity.2.2.1, hidentity.2.2.2.2.2]
  obtain ⟨as, bs, hsplit, hset⟩ := exists_split_of_getElem? hn
  -- what was owed for the old row is owed for the new one, or is released
  have hquota : s₁.deliveries = s.deliveries ∧ ∀ w, s₁.quota w = owed w (s.deliveries.set n row) ∧
      (s₁.quota w).Bounded := by
    unfold Store.account at haccount
    split at haccount
    next hends =>
      have hpos : 1 ≤ (s.quota old.workspaceId).outstandingDeliveries := by
        rw [hs.quota]
        exact length_pos_of_mem (mem_filter.mpr ⟨hmem, by simp [hends.1]⟩)
      have hreleased := release_eq_some haccount hpos
      refine ⟨(hreleased 0).1, fun w => ?_⟩
      have hsum := (hreleased w).2
      have hbefore := hs.bounded w
      rw [hs.quota, hsplit, owed_append, if_pos hends.1] at hsum hbefore
      rw [hset, owed_append, if_neg hends.2]
      have hdeliveries := congrArg Quota.outstandingDeliveries hsum
      have hbytes := congrArg Quota.outstandingPayloadBytes hsum
      simp only [Quota.Bounded, Quota.add_deliveries, Quota.add_bytes] at hdeliveries hbytes hbefore
      refine ⟨by ext <;> simp <;> omega, ?_, ?_⟩ <;> omega
    next hgoes =>
    cases haccount
    refine ⟨rfl, fun w => ⟨?_, hs.bounded w⟩⟩
    have hsame : old.terminalAt = none ↔ row.terminalAt = none := by
      refine ⟨fun hnone => not_not.mp fun hne => hgoes ⟨hnone, hne⟩, fun hnone => not_not.mp fun hne => ?_⟩
      have hterminal := hold.terminalAt_ne_none.mp hne
      exact hcoherent.terminalAt_ne_none.mpr ((hkept hterminal).symm ▸ hterminal) hnone
    rw [hs.quota, hset, owed_append, hsplit, owed_append, hcharge]
    simp only [hsame]
  refine ⟨⟨fun w => (hquota.1 ▸ (hquota.2 w).1), fun w => (hquota.2 w).2, fun x hx => ?_⟩, fun m x hx => ?_⟩
  · rw [hquota.1] at hx
    rcases mem_or_eq_of_mem_set hx with hx | rfl
    · exact hs.coherent x hx
    · exact hcoherent
  · rw [hquota.1]
    by_cases hm : n = m
    · subst hm
      obtain rfl := Option.some.inj (hn.symm.trans hx)
      exact ⟨row, List.getElem?_set_self (List.getElem?_eq_some_iff.mp hn).1, hkept⟩
    · exact ⟨x, (List.getElem?_set_ne hm).trans hx, fun _ => rfl⟩

theorem Exact.statements {sts : List Statement} (hs : Exact s) (h : sts.foldlM Store.exec s = some s') :
    Exact s' ∧ Continues s s' := by
  induction sts generalizing s with
  | nil =>
    obtain rfl := Option.some.inj h
    exact ⟨hs, .refl s⟩
  | cons st sts ih =>
    obtain ⟨s₁, hexec, h⟩ := Option.bind_eq_some_iff.mp h
    have hstep : Exact s₁ ∧ Continues s s₁ := by
      cases st with
      | insert => exact hs.insert hexec
      | update => exact hs.update hexec
    obtain ⟨hexact, hrest⟩ := ih hstep.1 h
    exact ⟨hexact, hstep.2.trans hrest⟩

theorem Exact.next (hs : Exact s) (t : Transaction) : Exact (store.next s t) ∧ Continues s (store.next s t) := by
  show Exact (store.exec s t).2 ∧ Continues s (store.exec s t).2
  unfold store
  simp only
  split
  next hrun =>
    split
    · exact ⟨hs, .refl s⟩
    · exact hs.statements hrun
  · exact ⟨hs, .refl s⟩

def Store.empty : Store := ⟨[], fun _ => none⟩

theorem exact_empty : Exact .empty where
  quota _ := rfl
  bounded _ := ⟨Nat.zero_le _, Nat.zero_le _⟩
  coherent _ hrow := absurd hrow not_mem_nil

/-- **The quota of a workspace is exact.** In every committed state it is the number and the size of the outstanding
deliveries, within its limits; a delivery has a terminal time exactly in the terminal states, and leaves
none of them. -/
theorem quota_exact (ts : List Transaction) :
    (∀ w, ((store.run .empty ts).quota w).outstandingDeliveries =
      (outstanding w (store.run .empty ts).deliveries).length ∧
      ((store.run .empty ts).quota w).outstandingPayloadBytes =
        ((outstanding w (store.run .empty ts).deliveries).map (·.payloadBytes)).sum ∧
      ((store.run .empty ts).quota w).outstandingDeliveries ≤ 10000 ∧
      ((store.run .empty ts).quota w).outstandingPayloadBytes ≤ 104857600) ∧
    (∀ row ∈ (store.run .empty ts).deliveries, row.terminalAt.isSome = row.state.terminal) ∧
    ∀ t ∈ store.transitions .empty ts, ∀ (n : Nat) (row : Row), t.pre.deliveries[n]? = some row → ∃ row',
      t.post.deliveries[n]? = some row' ∧ (row.state.terminal = true → row'.state = row.state) := by
  have hexact : ∀ ts, Exact (store.run .empty ts) := store.run_induction exact_empty fun s t hs => (hs.next t).1
  refine ⟨fun w => ?_, (hexact ts).coherent, fun t ht => ?_⟩
  · have hquota := (hexact ts).quota w
    exact ⟨congrArg Quota.outstandingDeliveries hquota, congrArg Quota.outstandingPayloadBytes hquota,
      (hexact ts).bounded w⟩
  · obtain ⟨as, bs, -, hpre, -, hpost⟩ := store.exists_split_of_mem_transitions ht
    rw [hpost, hpre]
    exact ((hexact as).next t.input).2

end RelayHub.Rust
