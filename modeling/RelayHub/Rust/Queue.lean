import Mathlib.Data.List.Sort
import RelayHub.Lib.Mealy
import RelayHub.Rust.QueueRows

/-! # RelayHub Rust backend — the queue of a subscription

The requests of queue_public.rs on one subscription, and what `publish_legacy` enqueues for it. A
request is one step, at its commit: a pull holds the lock of the subscription, and the rows that other
transactions have locked are an input of it. Every statement reads the clock for each row it looks at,
and between requests time passes.

`pull` reads the ordering mode and does not use it: it leases two deliveries with one ordering key. Nothing sets
`drained_at`, and `resume` leaves `draining_at` as it is: a drain is never reported as drained, and a subscription that
was drained cannot be pulled from again. -/

namespace RelayHub.Rust

open QueueRow Option

inductive OrderingMode where
  | none
  | key

structure QueuePolicy where
  orderingMode : OrderingMode
  maxAttempts : Nat
  maxInFlight : Nat
  maxBatchSize : Nat
  maxVisibilitySeconds : Nat
  maxTotalLeaseSeconds : Nat
  retentionSeconds : Nat

structure Subscription where
  policy : QueuePolicy
  enabled : Bool := true
  pausedAt : Option Int := none
  drainingAt : Option Int := none
  drainDeadlineAt : Option Int := none
  drainedAt : Option Int := none

structure QueueState where
  sub : Subscription
  deliveries : List QueueRow := []
  /-- The first reading of the last request. -/
  now : Int := 0
  /-- A drain was requested, and no resume after it. -/
  asked : Bool := false
  /-- The last request was a resume. -/
  resumed : Bool := false

/-- What `publish_legacy` enqueues. -/
structure Publication where
  id : Nat
  delaySeconds : Option Nat := none
  availableAt : Option Int := none
  orderingKey : Option String := none
  priority : Int := 0
  eventExpiresAt : Int

structure Settlement where
  receipt : String
  disposition : String
  delaySeconds : Option Nat := none

inductive QueueRequest where
  | publish (p : Publication)
  | pull (maxMessages visibilitySeconds : Option Nat) (locked : List Nat) (receipt : Nat → String)
  | settle (items : List Settlement)
  | extend (items : List (String × Nat))
  | replayDeadLetters (deliveryIds : List Nat)
  | drain (timeoutSeconds : Option Nat)
  | drainStatus
  | setPaused (paused : Bool)

/-- The readings of `clock_timestamp()` in a request, by the statement and the delivery. -/
abbrev Clock := Nat → Nat → Int

def seconds (n : Nat) : Int := n * 1000000

/-- An UPDATE of the rows. -/
def edit (write : QueueRow → Option QueueRow) (rows : List QueueRow) : List QueueRow :=
  rows.map fun row => (write row).getD row

/-- `ORDER BY d.priority DESC,d.available_at,d.created_at,d.id`. -/
def QueueRow.before (a b : QueueRow) : Prop :=
  a.priority > b.priority ∨ a.priority = b.priority ∧
    (a.availableAt < b.availableAt ∨ a.availableAt = b.availableAt ∧
      (a.createdAt < b.createdAt ∨ a.createdAt = b.createdAt ∧ a.id ≤ b.id))

instance : DecidableRel before := fun a b => by
  unfold before
  infer_instance

def Publication.row (policy : QueuePolicy) (now : Int) (p : Publication) : QueueRow where
  id := p.id
  availableAt := match p.delaySeconds with
    | some delay => now + seconds delay
    | none => p.availableAt.getD now
  expiresAt := min p.eventExpiresAt (now + seconds policy.retentionSeconds)
  orderingKey := p.orderingKey
  priority := p.priority
  createdAt := now

/-- The rows when `pull` counts those in flight, after its first two statements. -/
def QueueState.settledRows (s : QueueState) (clock : Clock) : List QueueRow :=
  edit (fun row => row.retire (clock 1 row.id))
    (edit (fun row => row.reclaim s.sub.policy.maxAttempts (clock 0 row.id)) s.deliveries)

/-- The deliveries that the third statement of `pull` selects. -/
def QueueState.selected (s : QueueState) (clock : Clock) (maxMessages : Option Nat) (locked : List Nat) : List Nat :=
  let limit := min (max 1 (min (maxMessages.getD 10) 100)) (max s.sub.policy.maxBatchSize 1)
  let free := s.sub.policy.maxInFlight - (s.settledRows clock).countP inFlight
  let due := (s.settledRows clock).filter fun row =>
    row.status = .available ∧ row.availableAt ≤ clock 2 row.id ∧ clock 2 row.id < row.expiresAt ∧ row.id ∉ locked
  ((due.insertionSort QueueRow.before).take (min limit free)).map QueueRow.id

/-- `pull` answers with a conflict. -/
def Subscription.refuses (sub : Subscription) : Bool :=
  !sub.enabled || sub.pausedAt.isSome || sub.drainingAt.isSome

inductive DrainStatus where
  | active
  | draining
  | drained
  deriving DecidableEq

/-- The answer of `drain_status`. -/
structure DrainReport where
  status : DrainStatus
  inFlight : Nat
  startedAt : Option Int
  deadlineAt : Option Int
  completedAt : Option Int

def QueueState.drainStatus (s : QueueState) : DrainReport where
  status :=
    if s.sub.drainedAt.isSome then .drained else if s.sub.drainingAt.isSome then .draining else .active
  inFlight := s.deliveries.countP inFlight
  startedAt := s.sub.drainingAt
  deadlineAt := s.sub.drainDeadlineAt
  completedAt := s.sub.drainedAt

inductive QueueReply where
  | done
  | refused
  | report (r : DrainReport)

def Disposition.parse : String → Option Disposition
  | "acked" => some .acked
  | "available" => some .available
  | "dead_letter" => some .deadLetter
  | _ => none

variable (digest : String → String)

/-- What the last statements of `pull` lease. -/
def QueueState.lease (s : QueueState) (clock : Clock) (maxMessages visibilitySeconds : Option Nat) (locked : List Nat)
    (receipt : Nat → String) (row : QueueRow) : Option QueueRow :=
  let visibility := min (max 1 (min (visibilitySeconds.getD 60) 3600)) (max s.sub.policy.maxVisibilitySeconds 1)
  if row.id ∈ s.selected clock maxMessages locked then
    row.lease digest (receipt row.id) (clock 2 row.id) (clock 3 row.id) (seconds visibility)
      (seconds (max s.sub.policy.maxTotalLeaseSeconds 1))
  else none

/-- An item of `settle`; `none` fails the request. -/
def QueueState.settleItem (s : QueueState) (clock : Clock) (rows : List QueueRow) (item : Settlement × Nat) :
    Option (List QueueRow) := do
  if item.1.receipt.utf8ByteSize = 0 ∨ 512 < item.1.receipt.utf8ByteSize then none
  let disposition ← Disposition.parse item.1.disposition
  let write (row : QueueRow) := row.settle item.1.receipt s.sub.policy.maxAttempts disposition
    (seconds (min (item.1.delaySeconds.getD 0) 86400)) (clock item.2 row.id)
  let hit (row : QueueRow) := row.current digest item.1.receipt (clock item.2 row.id)
  if rows.any fun row => hit row && (write row).isNone then none
  return edit (fun row => if hit row then write row else none) rows

def QueueState.extendItem (clock : Clock) (rows : List QueueRow) (item : (String × Nat) × Nat) :
    Option (List QueueRow) :=
  if item.1.1.utf8ByteSize = 0 ∨ item.1.2 = 0 ∨ 3600 < item.1.2 then none
  else some (edit (fun row => row.extend digest item.1.1 (clock item.2 row.id) (seconds item.1.2)) rows)

/-- A request; `none` is an error, and changes nothing. -/
def QueueState.handle (s : QueueState) (clock : Clock) : QueueRequest → Option QueueState
  | .publish p =>
    if s.sub.enabled && s.sub.pausedAt.isNone then
      some { s with deliveries := s.deliveries ++ [p.row s.sub.policy (clock 0 p.id)] }
    else some s
  | .pull maxMessages visibilitySeconds locked receipt =>
    if s.sub.refuses then none
    else some { s with
      deliveries := edit (s.lease digest clock maxMessages visibilitySeconds locked receipt) (s.settledRows clock) }
  | .settle items =>
    if 100 < items.length then none
    else
      match items.zipIdx.foldlM (s.settleItem digest clock) s.deliveries with
      | some rows => some { s with deliveries := rows }
      | none => none
  | .extend items =>
    if 100 < items.length then none
    else
      match items.zipIdx.foldlM (extendItem digest clock) s.deliveries with
      | some rows => some { s with deliveries := rows }
      | none => none
  | .replayDeadLetters deliveryIds =>
    if 100 < deliveryIds.length then none
    else some { s with
      deliveries := edit (fun row => if row.id ∈ deliveryIds then row.replay (clock 0 row.id) else none) s.deliveries }
  | .drain timeoutSeconds => some { s with
      sub := { s.sub with
        drainingAt := some (clock 0 0)
        drainDeadlineAt := some (clock 0 0 + seconds (max 1 (min (timeoutSeconds.getD 30) 3600)))
        drainedAt := none }
      asked := true }
  | .drainStatus => some s
  | .setPaused paused => some { s with
      sub := { s.sub with pausedAt := if paused then some (clock 0 0) else none, enabled := !paused }
      asked := s.asked && paused
      resumed := !paused }

/-- The answer of a request that succeeds, as far as it is told apart. -/
def QueueState.reply (s : QueueState) : QueueRequest → QueueReply
  | .drainStatus => .report s.drainStatus
  | _ => .done

/-- The subscription, with the readings of each request. -/
def queue : Mealy QueueState (Clock × QueueRequest) QueueReply where
  exec s i :=
    let s := { s with now := i.1 0 0, resumed := false }
    match s.handle digest i.1 i.2 with
    | some s' => (s'.reply i.2, s')
    | none => (.refused, s)

theorem next_eq (s : QueueState) (i : Clock × QueueRequest) :
    (queue digest).next s i = (({ s with now := i.1 0 0, resumed := false } : QueueState).handle digest i.1 i.2).getD
      { s with now := i.1 0 0, resumed := false } := by
  unfold Mealy.next queue
  dsimp only
  split <;> simp [*]

def QueueState.new (policy : QueuePolicy) : QueueState := { sub := { policy } }

/-! ## Ordering keys -/

/-- The delivery is in flight and has the ordering key. -/
def QueueRow.holds (key : String) (row : QueueRow) : Bool := row.inFlight && row.orderingKey = some key

/-- At most one delivery with an ordering key is in flight. -/
def QueueState.Exclusive (s : QueueState) : Prop := ∀ key ≠ "", s.deliveries.countP (holds key) ≤ 1

/-- The delivery has the ordering key, and it is in flight or due at a time. -/
def QueueRow.contends (key : String) (t : Int) (row : QueueRow) : Bool :=
  row.orderingKey = some key &&
    (row.inFlight || decide (row.status = .available ∧ row.availableAt ≤ t ∧ t < row.expiresAt))

/-- When a pull that is not refused selects, at most one delivery with an ordering key is in flight or due. -/
def Uncontended (s : QueueState) : Clock × QueueRequest → Prop
  | (clock, .pull _ _ _ _) => s.sub.refuses = false → ∀ key ≠ "",
      s.deliveries.countP (fun row => row.contends key (clock 2 row.id)) ≤ 1
  | _ => True

variable {digest} {key : String} {rows rows' : List QueueRow} {write : QueueRow → Option QueueRow} {s : QueueState}
  {clock : Clock}

/-- An UPDATE does not make more rows meet `p` than met `q` before. -/
theorem countP_edit_le {p q : QueueRow → Bool} (hpq : ∀ row, p row = true → q row = true)
    (h : ∀ row row', write row = some row' → p row' = true → q row = true) (rows : List QueueRow) :
    (edit write rows).countP p ≤ rows.countP q := by
  rw [edit, List.countP_map]
  refine List.countP_mono_left fun row _ hrow => ?_
  rw [Function.comp_apply] at hrow
  cases hw : write row with
  | none => exact hpq row (by rwa [hw] at hrow)
  | some row' => exact h row row' hw (by rwa [hw] at hrow)

theorem countP_foldlM_le {α : Type} {f : List QueueRow → α → Option (List QueueRow)}
    (hf : ∀ rows rows' a, f rows a = some rows' → rows'.countP (holds key) ≤ rows.countP (holds key))
    {items : List α} (h : items.foldlM f rows = some rows') :
    rows'.countP (holds key) ≤ rows.countP (holds key) := by
  induction items generalizing rows with
  | nil => cases h; exact Nat.le_refl _
  | cons a items ih =>
    obtain ⟨rows₁, h₁, h⟩ := bind_eq_some_iff.mp h
    exact Nat.le_trans (ih h) (hf rows rows₁ a h₁)

theorem countP_settleItem_le (rows rows' : List QueueRow) (item : Settlement × Nat)
    (h : s.settleItem digest clock rows item = some rows') :
    rows'.countP (holds key) ≤ rows.countP (holds key) := by
  obtain ⟨-, h⟩ := ite_none_left_eq_some.mp h
  obtain ⟨disposition, -, h⟩ := bind_eq_some_iff.mp h
  obtain ⟨-, ⟨⟩⟩ := ite_none_left_eq_some.mp h
  refine countP_edit_le (fun _ => id) (fun row row' h hrow => ?_) _
  obtain ⟨-, h⟩ := ite_none_right_eq_some.mp h
  obtain ⟨-, ⟨⟩⟩ := ite_none_right_eq_some.mp h
  cases disposition with
  | acked | deadLetter => cases hrow
  | available =>
    simp only [holds, inFlight, Disposition.status] at hrow
    split at hrow
    next hin => split at hin <;> cases hin
    · cases hrow

theorem countP_extendItem_le (rows rows' : List QueueRow) (item : (String × Nat) × Nat)
    (h : QueueState.extendItem digest clock rows item = some rows') :
    rows'.countP (holds key) ≤ rows.countP (holds key) := by
  obtain ⟨-, ⟨⟩⟩ := ite_none_left_eq_some.mp h
  refine countP_edit_le (fun _ => id) (fun row row' h hrow => ?_) _
  unfold extend at h
  split at h
  next hstatus =>
    obtain ⟨-, ⟨⟩⟩ := ite_none_right_eq_some.mp h
    simpa [holds, inFlight, hstatus] using hrow
  · cases h

/-- **What is in flight after a pull** was in flight or due before it. -/
theorem countP_pull_le (m v : Option Nat) (locked : List Nat) (receipt : Nat → String) :
    (edit (s.lease digest clock m v locked receipt) (s.settledRows clock)).countP (holds key) ≤
      s.deliveries.countP fun row => row.contends key (clock 2 row.id) := by
  have hlease : (edit (s.lease digest clock m v locked receipt) (s.settledRows clock)).countP (holds key) ≤
      (s.settledRows clock).countP fun row => row.contends key (clock 2 row.id) := by
    refine countP_edit_le (fun row hrow => ?_) (fun row row' h hrow => ?_) _
    · simp only [holds, Bool.and_eq_true] at hrow
      simp [contends, hrow]
    · obtain ⟨-, h⟩ := ite_none_right_eq_some.mp h
      obtain ⟨hdue, ⟨⟩⟩ := ite_none_right_eq_some.mp h
      simp only [holds, Bool.and_eq_true] at hrow
      simp [contends, hrow.2, hdue]
  refine hlease.trans (.trans (countP_edit_le (fun _ => id) (fun row row' h hrow => ?_) _)
    (countP_edit_le (fun _ => id) (fun row row' h hrow => ?_) _))
  · -- what has expired is dead
    obtain ⟨-, ⟨⟩⟩ := ite_none_right_eq_some.mp h
    simp [contends, inFlight] at hrow
  · -- a lease that has expired was in flight
    unfold reclaim at h
    split at h
    next hstatus =>
      obtain ⟨-, ⟨⟩⟩ := ite_none_right_eq_some.mp h
      simp only [contends, Bool.and_eq_true] at hrow
      simp [contends, hrow.1, inFlight, hstatus]
    · cases h

/-- **What a request puts in flight**: nothing, or what a pull leases. -/
theorem countP_handle {r : QueueRequest} {s' : QueueState} (h : s.handle digest clock r = some s') (key : String) :
    s'.deliveries.countP (holds key) ≤ s.deliveries.countP (holds key) ∨
      s.sub.refuses = false ∧ (∃ m v locked receipt, r = .pull m v locked receipt) ∧
        s'.deliveries.countP (holds key) ≤ s.deliveries.countP fun row => row.contends key (clock 2 row.id) := by
  cases r with
  | publish =>
    left
    simp only [QueueState.handle] at h
    split at h
    · cases h
      simp [holds, inFlight, Publication.row]
    · cases h
      exact Nat.le_refl _
  | pull m v locked receipt =>
    obtain ⟨hopen, ⟨⟩⟩ := ite_none_left_eq_some.mp h
    exact .inr ⟨by simpa using hopen, ⟨m, v, locked, receipt, rfl⟩, countP_pull_le m v locked receipt⟩
  | settle =>
    obtain ⟨-, h⟩ := ite_none_left_eq_some.mp h
    split at h
    next hrows =>
      cases h
      exact .inl (countP_foldlM_le countP_settleItem_le hrows)
    · cases h
  | extend =>
    obtain ⟨-, h⟩ := ite_none_left_eq_some.mp h
    split at h
    next hrows =>
      cases h
      exact .inl (countP_foldlM_le countP_extendItem_le hrows)
    · cases h
  | replayDeadLetters =>
    obtain ⟨-, ⟨⟩⟩ := ite_none_left_eq_some.mp h
    refine .inl (countP_edit_le (fun _ => id) (fun row row' h hrow => ?_) _)
    obtain ⟨-, h⟩ := ite_none_right_eq_some.mp h
    obtain ⟨-, ⟨⟩⟩ := ite_none_right_eq_some.mp h
    cases hrow
  | drain | setPaused | drainStatus =>
    cases h
    exact .inl (Nat.le_refl _)

/-- **The ordering mode is not looked at.** At most one delivery with an ordering key is in flight in every state of a
run if no pull of the run finds two deliveries with one key in flight or due. -/
theorem ordering_keys_exclusive (digest : String → String) (policy : QueuePolicy) (run : List (Clock × QueueRequest))
    (h : (queue digest).Steps (fun s i _ => Uncontended s i) (.new { policy with orderingMode := .key })
      run) (k : Nat) :
    ((queue digest).stateAt (.new { policy with orderingMode := .key }) run k).Exclusive := by
  refine h.invariant (fun key _ => Nat.zero_le 1) (fun s i hs hi key hkey => ?_) k
  rw [next_eq]
  cases hs' : QueueState.handle digest _ i.1 i.2 with
  | none => exact hs key hkey
  | some s' =>
    rcases countP_handle hs' key with hle | ⟨hopen, ⟨m, v, locked, receipt, hpull⟩, hle⟩
    · exact Nat.le_trans hle (hs key hkey)
    · obtain ⟨clock, r⟩ := i
      cases hpull
      exact Nat.le_trans hle (hi hopen key hkey)

/-- A delivery with a key is published after the one before it is acknowledged. -/
def oneAfterAnother : List (Clock × QueueRequest) :=
  [(fun _ _ => 0, .publish { id := 1, orderingKey := some "k", eventExpiresAt := 9 }),
    (fun _ _ => 1, .pull none none [] fun _ => "r"), (fun _ _ => 2, .settle [⟨"r", "acked", none⟩]),
    (fun _ _ => 3, .publish { id := 2, orderingKey := some "k", eventExpiresAt := 9 }),
    (fun _ _ => 4, .pull none none [] fun _ => "r")]

theorem ordering_keys_exclusive_acked :
    ((queue id).stateAt (.new ⟨.key, 5, 10, 10, 3600, 3600, 3600⟩) oneAfterAnother 2).Exclusive ∧
      ((queue id).stateAt (.new ⟨.key, 5, 10, 10, 3600, 3600, 3600⟩) oneAfterAnother 5).Exclusive := by
  have hexclusive := ordering_keys_exclusive id ⟨.key, 5, 10, 10, 3600, 3600, 3600⟩ oneAfterAnother
    ⟨trivial, fun _ _ _ => List.countP_le_length, trivial, trivial, fun _ key _ => ?_, trivial⟩
  · exact ⟨hexclusive 2, hexclusive 5⟩
  refine Nat.le_trans (List.countP_mono_left fun row _ hrow => ?_)
    (by decide : List.countP (fun row => row.inFlight || decide (row.status = .available)) _ ≤ 1)
  simp only [contends, Bool.and_eq_true, Bool.or_eq_true, decide_eq_true_eq] at hrow ⊢
  exact hrow.2.imp id (·.1)

/-- Two deliveries with one key, and a pull. -/
def twoOfOneKey : List (Clock × QueueRequest) :=
  [(fun _ _ => 0, .publish { id := 1, orderingKey := some "k", eventExpiresAt := 9 }),
    (fun _ _ => 0, .publish { id := 2, orderingKey := some "k", eventExpiresAt := 9 }),
    (fun _ _ => 1, .pull none none [] fun _ => "r")]

theorem key_leased_twice : ¬ ((queue id).run (.new ⟨.key, 5, 10, 10, 3600, 3600, 3600⟩) twoOfOneKey).Exclusive :=
  fun h => absurd (h "k" (by decide)) (by decide)

/-! ## Drains -/

/-- The delivery is in flight with a lease that has not expired. -/
def QueueRow.live (t : Int) (row : QueueRow) : Bool :=
  match row.status with
  | .inFlight _ expiresAt _ => t < expiresAt
  | _ => false

def QueueState.live (s : QueueState) (t : Int) : Bool := s.deliveries.any (QueueRow.live t)

/-- From a drain on, until the next resume, `drain_status` says drained whenever no lease is alive. -/
def QueueState.DrainReported (digest : String → String) (s : QueueState) : Prop :=
  s.asked = true → ∀ t, s.now ≤ t → s.live t = false →
    ∃ r, (queue digest).out s (fun _ _ => t, .drainStatus) = .report r ∧ r.status = .drained

/-- After a resume a pull is not refused. -/
def QueueState.Resumes (digest : String → String) (s : QueueState) : Prop :=
  s.resumed = true → ∀ clock m v locked receipt, (queue digest).out s (clock, .pull m v locked receipt) ≠ .refused

def QueueRequest.isDrain : QueueRequest → Bool
  | .drain _ => true
  | _ => false

/-- What a request does to the subscription: a drain, a pause or a resume, or nothing. -/
inductive Control (s s' : QueueState) : QueueRequest → Prop where
  | drain (timeout : Option Nat) (h : s'.sub.drainingAt.isSome = true ∧ s'.sub.drainedAt = none)
      (hasked : s'.asked = true ∧ s'.resumed = false) : Control s s' (.drain timeout)
  | setPaused (paused : Bool) (h : s'.sub.drainingAt = s.sub.drainingAt ∧ s'.sub.drainedAt = s.sub.drainedAt)
      (hopen : paused = false → s'.sub.enabled = true ∧ s'.sub.pausedAt = none)
      (hasked : s'.asked = (s.asked && paused) ∧ s'.resumed = !paused) : Control s s' (.setPaused paused)
  | other {r : QueueRequest} (hr : r.isDrain = false ∧ r ≠ .setPaused false) (h : s'.sub = s.sub)
      (hasked : s'.asked = s.asked ∧ s'.resumed = false) : Control s s' r

theorem next_control (digest : String → String) (s : QueueState) (i : Clock × QueueRequest) :
    Control s ((queue digest).next s i) i.2 := by
  rw [next_eq]
  obtain ⟨clock, r⟩ := i
  cases r with
  | publish | pull | replayDeadLetters =>
    dsimp only [QueueState.handle]
    split <;> exact .other ⟨rfl, nofun⟩ rfl ⟨rfl, rfl⟩
  | settle | extend =>
    dsimp only [QueueState.handle]
    split
    · exact .other ⟨rfl, nofun⟩ rfl ⟨rfl, rfl⟩
    · split <;> exact .other ⟨rfl, nofun⟩ rfl ⟨rfl, rfl⟩
  | drain timeout => exact .drain timeout ⟨rfl, rfl⟩ ⟨rfl, rfl⟩
  | drainStatus => exact .other ⟨rfl, nofun⟩ rfl ⟨rfl, rfl⟩
  | setPaused paused =>
    refine .setPaused paused ⟨rfl, rfl⟩ ?_ ⟨rfl, rfl⟩
    rintro rfl
    exact ⟨rfl, rfl⟩

/-- What the subscription and the flags tell about the requests so far. -/
structure Tracks (s : QueueState) (run : List (Clock × QueueRequest)) : Prop where
  drained : s.sub.drainedAt = none
  draining : s.sub.drainingAt = none ↔ ∀ i ∈ run, i.2.isDrain = false
  asked : s.asked = true → s.sub.drainingAt ≠ none
  resumed : s.resumed = true → s.sub.enabled = true ∧ s.sub.pausedAt = none ∧
    ∃ before i, run = before ++ [i] ∧ i.2 = .setPaused false

theorem run_tracks (digest : String → String) (policy : QueuePolicy) (run : List (Clock × QueueRequest)) :
    Tracks ((queue digest).run (.new policy) run) run := by
  induction run using List.reverseRecOn with
  | nil => exact ⟨rfl, iff_of_true rfl (by simp), nofun, nofun⟩
  | append_singleton run i ih =>
    rw [Mealy.run_concat]
    have hcontrol := next_control digest ((queue digest).run (.new policy) run) i
    generalize (queue digest).next _ i = s' at hcontrol ⊢
    obtain ⟨clock, r⟩ := i
    cases hcontrol with
    | drain timeout h hasked =>
      have hne : s'.sub.drainingAt ≠ none := fun heq => by simp [heq] at h
      exact ⟨h.2, iff_of_false hne fun hno => Bool.noConfusion (hno _ (List.mem_append_right run (.head _))),
        fun _ => hne, by simp [hasked.2]⟩
    | setPaused paused h hopen hasked =>
      refine ⟨h.2.trans ih.drained, ?_, fun hs => ?_, fun hs => ?_⟩
      · simp [h.1, ih.draining, QueueRequest.isDrain, or_imp, forall_and]
      · rw [hasked.1, Bool.and_eq_true] at hs
        rw [h.1]
        exact ih.asked hs.1
      · obtain rfl : paused = false := by simpa [hasked.2] using hs
        exact ⟨(hopen rfl).1, (hopen rfl).2, run, _, rfl, rfl⟩
    | other hr h hasked =>
      refine ⟨h ▸ ih.drained, ?_, fun hs => h ▸ ih.asked (hasked.1 ▸ hs), by simp [hasked.2]⟩
      simp [h, ih.draining, hr.1, or_imp, forall_and]

/-- Every lease expires. -/
theorem exists_not_live (s : QueueState) : ∃ t, s.now ≤ t ∧ s.live t = false := by
  suffices h : ∀ rows : List QueueRow, ∃ t₀, ∀ t ≥ t₀, ∀ row ∈ rows, row.live t = false by
    obtain ⟨t₀, h⟩ := h s.deliveries
    exact ⟨max s.now t₀, le_max_left _ _, List.any_eq_false.mpr fun row hrow =>
      by simp [h _ (le_max_right _ _) row hrow]⟩
  intro rows
  induction rows with
  | nil => exact ⟨0, by simp⟩
  | cons row rows ih =>
    obtain ⟨t₀, ih⟩ := ih
    obtain ⟨t₁, hrow⟩ : ∃ t₁, ∀ t ≥ t₁, row.live t = false := by
      unfold QueueRow.live
      split
      next expiresAt _ _ => exact ⟨expiresAt, fun t ht => decide_eq_false (Int.not_lt.mpr ht)⟩
      · exact ⟨0, fun _ _ => rfl⟩
    refine ⟨max t₀ t₁, fun t ht => List.forall_mem_cons.mpr ⟨hrow t ?_, ih t ?_⟩⟩
    · exact (le_max_right _ _).trans ht
    · exact (le_max_left _ _).trans ht

theorem out_pull (digest : String → String) (s : QueueState) (clock : Clock) (m v : Option Nat) (locked : List Nat)
    (receipt : Nat → String) :
    (queue digest).out s (clock, .pull m v locked receipt) = if s.sub.refuses then .refused else .done := by
  cases hrefuses : s.sub.refuses <;> simp [Mealy.out, queue, QueueState.handle, QueueState.reply, hrefuses]

/-- **Drains do not end.** From a drain until a resume the subscription is reported as drained whenever no lease is
alive, in every state of a run, exactly if the run has no drain; and a subscription can be pulled from right after a
resume, in every state of a run, exactly if no drain comes before a resume. -/
theorem drains_end (digest : String → String) (policy : QueuePolicy) (run : List (Clock × QueueRequest)) :
    ((∀ k, ((queue digest).stateAt (.new policy) run k).DrainReported digest) ↔ ∀ i ∈ run, i.2.isDrain = false) ∧
    ((∀ k, ((queue digest).stateAt (.new policy) run k).Resumes digest) ↔
      ∀ before i after, run = before ++ i :: after → i.2 = .setPaused false → ∀ j ∈ before, j.2.isDrain = false) := by
  have hat (before i after) (h : run = before ++ i :: after) :
      (queue digest).stateAt (.new policy) run (before.length + 1) =
        (queue digest).next ((queue digest).run (.new policy) before) i := by
    rw [Mealy.stateAt, h, List.take_length_add_append]
    exact Mealy.run_concat ..
  have htracks (k) := run_tracks digest policy (run.take k)
  refine ⟨⟨fun h i hi => ?_, fun h k hasked => ?_⟩, fun h before i after hrun hi j hj => ?_, fun h k hresumed => ?_⟩
  · by_contra hdrain
    obtain ⟨before, after, hrun⟩ := List.mem_iff_append.mp hi
    have hreported := h (before.length + 1)
    rw [hat before i after hrun] at hreported
    have hcontrol := next_control digest ((queue digest).run (.new policy) before) i
    generalize (queue digest).next _ i = s at hreported hcontrol
    obtain ⟨clock, r⟩ := i
    cases hcontrol with
    | drain timeout hsub hasked =>
      obtain ⟨t, hnow, hlive⟩ := exists_not_live s
      obtain ⟨r, hr, hdrained⟩ := hreported hasked.1 t hnow hlive
      obtain rfl := QueueReply.report.inj hr
      simp [QueueState.drainStatus, hsub] at hdrained
    | setPaused => exact hdrain rfl
    | other hr => exact hdrain hr.1
  · exact absurd ((htracks k).draining.mpr fun i hi => h i (List.mem_of_mem_take hi)) ((htracks k).asked hasked)
  · by_contra hdrain
    have hresumes := h (before.length + 1)
    rw [hat before i after hrun] at hresumes
    have hcontrol := next_control digest ((queue digest).run (.new policy) before) i
    have hbefore := (run_tracks digest policy before).draining
    obtain ⟨clock, r⟩ := i
    obtain rfl : r = .setPaused false := hi
    cases hcontrol with
    | setPaused _ hsub hopen hasked =>
      refine hresumes hasked.2 clock none none [] (fun _ => "") ?_
      have hdraining := mt hbefore.mp fun hno => hdrain (hno j hj)
      rw [← hsub.1] at hdraining
      simp [out_pull, Subscription.refuses, Option.isSome_iff_ne_none.mpr hdraining]
    | other hr => exact absurd rfl hr.2
  · intro clock m v locked receipt
    obtain ⟨henabled, hpaused, before, i, htake, hi⟩ := (htracks k).resumed hresumed
    have hdraining : ((queue digest).stateAt (.new policy) run k).sub.drainingAt = none := by
      refine (htracks k).draining.mpr fun j hj => ?_
      rw [htake] at hj
      rcases List.mem_append.mp hj with hj | hj
      · exact h before i (run.drop k) (by rw [← List.singleton_append, ← List.append_assoc, ← htake,
          List.take_append_drop]) hi j hj
      · rw [List.mem_singleton.mp hj, hi]
        rfl
    rw [Mealy.stateAt] at hdraining ⊢
    simp [out_pull, Subscription.refuses, henabled, hpaused, hdraining]

/-- A drain of an empty subscription, and a resume. -/
theorem drained_queue_stays_closed :
    ¬ ((queue id).run (.new ⟨.none, 5, 10, 10, 60, 60, 60⟩) [(fun _ _ => 0, .drain none)]).DrainReported id ∧
    ¬ ((queue id).run (.new ⟨.none, 5, 10, 10, 60, 60, 60⟩)
      [(fun _ _ => 0, .drain none), (fun _ _ => 1, .setPaused false)]).Resumes id := by
  refine ⟨fun h => ?_, fun h => h rfl (fun _ _ => 2) none none [] (fun _ => "") rfl⟩
  obtain ⟨r, hr, hdrained⟩ := h rfl 2 (by decide) rfl
  obtain rfl := QueueReply.report.inj hr
  cases hdrained

end RelayHub.Rust
