import RelayHub.Lib.Program

/-! # Transactions under locks

Data lies in *regions*, and a lock guards each. A transaction performs operations on single regions, and each may
take a lock before, which the transaction keeps until it ends. What it writes, it alone sees until it commits; what
it reads and has not written is what is committed at that moment.

There are two machines. In the *concurrent* one the operations of open transactions interleave, and an operation
whose lock another transaction holds has to wait. In the *atomic* one a transaction is a single step. `Guarded` says
that a transaction works on regions only whose lock it holds, and `refines` that then every run of calls on the
concurrent machine is a run of the same calls on the atomic one, in which each transaction is performed at its
commit. -/

namespace Transactions

open List Program Pool

/-- Data in regions, and the operations on it. -/
structure Regions (R L O I ρ : Type) (V : R → Type) where
  /-- The lock that guards a region. -/
  guard : R → L
  /-- The lock that an operation takes. -/
  locks : O → Option L
  region : O → R
  /-- The reply, and the value that is written, if one is. -/
  exec : (o : O) → V (region o) → ρ × Option (V (region o))
  /-- What a query finds. -/
  look : I → ((r : R) → V r) → ρ

/-- How a transaction ends. -/
inductive Decision (α : Type) where
  | commit (result : α)
  | abort (result : α)

/-- What a call asks of the store. -/
inductive Request (O I ρ α : Type) where
  | transaction (body : Program O ρ (Decision α))
  /-- One statement that reads, outside of transactions. -/
  | query (i : I)
  /-- Something that the surroundings know, the time say. -/
  | ask

inductive Answer (ρ α τ : Type) where
  | result (a : Option α)
  | reply (r : Option ρ)
  | told (t : τ)

/-- A call, whose transactions are single steps. -/
abbrev AtomicCall (O I ρ τ α β : Type) := Program (Request O I ρ α) (Answer ρ α τ) β

/-- What a call does not choose. -/
structure Choice (τ : Type) where
  told : τ
  fate : Fate := .answered

variable {R L O I ρ τ α β : Type} {V : R → Type} {G : Regions R L O I ρ V}

section Machines

variable [DecidableEq R] (G : Regions R L O I ρ V)

/-! ## The atomic machine -/

/-- An operation on the data. -/
def Regions.apply (o : O) (s : (r : R) → V r) : ρ × ((r : R) → V r) :=
  match G.exec o (s (G.region o)) with
  | (r, none) => (r, s)
  | (r, some v) => (r, Function.update s (G.region o) v)

/-- The operations of a transaction, one after another. -/
def Regions.run {γ : Type} : Program O ρ γ → ((r : R) → V r) → γ × ((r : R) → V r)
  | .done c, s => (c, s)
  | .call o k, s => run (k (G.apply o s).1) (G.apply o s).2

/-- A transaction in one step. -/
def Regions.atomically (body : Program O ρ (Decision α)) (s : (r : R) → V r) : α × ((r : R) → V r) :=
  match G.run body s with
  | (.commit a, s') => (a, s')
  | (.abort a, _) => (a, s)

theorem apply_of_ne {o : O} {r : R} (hr : r ≠ G.region o) (s : (r : R) → V r) : (G.apply o s).2 r = s r := by
  unfold Regions.apply
  split
  · rfl
  · exact Function.update_of_ne hr ..

section Run

variable {G} {γ : Type} {o : O} {s : (r : R) → V r} {v : V (G.region o)} {r : ρ} (h : s (G.region o) = v)
include h

theorem run_read (hexec : G.exec o v = (r, none)) (f : ρ → Program O ρ γ) :
    G.run (perform o >>= f) s = G.run (f r) s := by
  show G.run (f (G.apply o s).1) (G.apply o s).2 = _
  rw [Regions.apply, h, hexec]

theorem run_write {v' : V (G.region o)} (hexec : G.exec o v = (r, some v')) (f : ρ → Program O ρ γ) :
    G.run (perform o >>= f) s = G.run (f r) (Function.update s (G.region o) v') := by
  show G.run (f (G.apply o s).1) (G.apply o s).2 = _
  rw [Regions.apply, h, hexec]

end Run

variable {G} in
theorem atomically_of_commit {body : Program O ρ (Decision α)} {s s' : (r : R) → V r} {a : α}
    (h : G.run body s = (.commit a, s')) : G.atomically body s = (a, s') := by
  rw [Regions.atomically, h]

variable {G} in
theorem atomically_of_abort {body : Program O ρ (Decision α)} {s s' : (r : R) → V r} {a : α}
    (h : G.run body s = (.abort a, s')) : G.atomically body s = (a, s) := by
  rw [Regions.atomically, h]

def Regions.atomic : Mealy ((r : R) → V r) (Request O I ρ α × Choice τ) (Answer ρ α τ) where
  exec s
    | (.transaction body, c) =>
      match c.fate with
      | .answered => (.result (some (G.atomically body s).1), (G.atomically body s).2)
      | .lost => (.result none, (G.atomically body s).2)
      | .refused => (.result none, s)
    | (.query i, c) => (.reply (if c.fate = .answered then some (G.look i s) else none), s)
    | (.ask, c) => (.told c.told, s)

/-! ## The concurrent machine -/

variable [DecidableEq L]

/-- A transaction: the locks it holds, and what it has written. -/
structure Tx (L : Type) (V : R → Type) where
  holds : List L
  written : (r : R) → Option (V r)

/-- A transaction that has done nothing, or has ended. -/
def Tx.idle : Tx L V := ⟨[], fun _ => none⟩

/-- The store: what is committed, and the transactions, by number. -/
structure Store (L : Type) (V : R → Type) where
  committed : (r : R) → V r
  txs : Nat → Tx L V
  next : Nat

/-- What a transaction sees. -/
def overlay (w : (r : R) → Option (V r)) (s : (r : R) → V r) (r : R) : V r := (w r).getD (s r)

inductive Statement (O I : Type) where
  | begin
  | op (tx : Nat) (o : O)
  | commit (tx : Nat)
  | rollback (tx : Nat)
  | query (i : I)
  | ask

inductive Reply (ρ τ : Type) where
  | began (tx : Nat)
  | blocked
  | reply (r : ρ)
  | ended
  | told (t : τ)
  | failed

/-- A call, whose statements are single steps. -/
abbrev ConcurrentCall (O I ρ τ β : Type) := Program (Statement O I) (Reply ρ τ) β

def Reply.time [Inhabited τ] : Reply ρ τ → τ
  | .told t => t
  | _ => default

/-- Another transaction holds the lock. -/
def Store.Busy (s : Store L V) (tx : Nat) (l : L) : Prop := ∃ j < s.next, j ≠ tx ∧ l ∈ (s.txs j).holds

instance (s : Store L V) (tx : Nat) (l : L) : Decidable (s.Busy tx l) :=
  inferInstanceAs (Decidable (∃ j < s.next, j ≠ tx ∧ l ∈ (s.txs j).holds))

/-- A transaction after an operation, with what it has written by it. -/
def Regions.record (o : O) (v : Option (V (G.region o))) (t : Tx L V) : Tx L V where
  holds := (G.locks o).toList ++ t.holds
  written := match v with
    | none => t.written
    | some v => Function.update t.written (G.region o) (some v)

def Store.setTx (s : Store L V) (tx : Nat) (t : Tx L V) : Store L V :=
  { s with txs := Function.update s.txs tx t }

/-- An operation in a transaction. -/
def Regions.perform (tx : Nat) (o : O) (s : Store L V) : Reply ρ τ × Store L V :=
  if ∃ l ∈ G.locks o, s.Busy tx l then (.blocked, s)
  else
    let x := G.exec o (overlay (s.txs tx).written s.committed (G.region o))
    (.reply x.1, s.setTx tx (G.record o x.2 (s.txs tx)))

/-- The end of a transaction that publishes what it has written. -/
def Store.publish (s : Store L V) (tx : Nat) : Store L V :=
  { s.setTx tx .idle with committed := overlay (s.txs tx).written s.committed }

def Regions.concurrent : Mealy (Store L V) (Statement O I × Choice τ) (Reply ρ τ) where
  exec s
    | (.begin, c) =>
      if c.fate = .answered then (.began s.next, { s.setTx s.next .idle with next := s.next + 1 }) else (.failed, s)
    | (.op tx o, c) => if c.fate = .answered then G.perform tx o s else (.failed, s)
    | (.commit tx, c) =>
      match c.fate with
      | .answered => (.ended, s.publish tx)
      | .lost => (.failed, s.publish tx)
      | .refused => (.failed, s.setTx tx .idle)
    | (.rollback tx, _) => (.ended, s.setTx tx .idle)
    | (.query i, c) => (if c.fate = .answered then .reply (G.look i s.committed) else .failed, s)
    | (.ask, c) => (.told c.told, s)

/-! ## Calls -/

/-- An operation that is tried again while it has to wait, some number of times. -/
def attempt (tx : Nat) (o : O) (next : ρ → ConcurrentCall O I ρ τ β)
    (giveUp : ConcurrentCall O I ρ τ β) : Nat → ConcurrentCall O I ρ τ β
  | 0 => giveUp
  | n + 1 => .call (.op tx o) fun
    | .reply r => next r
    | .blocked => attempt tx o next giveUp n
    | _ => giveUp

/-- The end of a transaction that commits. -/
def commitment (tx : Nat) (next : Option α → ConcurrentCall O I ρ τ β) (a : α) : ConcurrentCall O I ρ τ β :=
  .call (.commit tx) fun
    | .ended => next (some a)
    | _ => next none

/-- A transaction, statement by statement. If one fails, the transaction is rolled back. -/
def within (patience tx : Nat) (next : Option α → ConcurrentCall O I ρ τ β) :
    Program O ρ (Decision α) → ConcurrentCall O I ρ τ β
  | .done (.commit a) => commitment tx next a
  | .done (.abort a) => .call (.rollback tx) fun _ => next (some a)
  | .call o k =>
    attempt tx o (fun r => within patience tx next (k r)) (.call (.rollback tx) fun _ => next none) patience

/-- A transaction from its beginning. -/
def transact (patience : Nat) (body : Program O ρ (Decision α)) (next : Option α → ConcurrentCall O I ρ τ β) :
    ConcurrentCall O I ρ τ β :=
  .call .begin fun
    | .began tx => within patience tx next body
    | _ => next none

/-- One statement outside of transactions. -/
def inquire (i : I) (next : Option ρ → ConcurrentCall O I ρ τ β) : ConcurrentCall O I ρ τ β :=
  .call (.query i) fun
    | .reply r => next (some r)
    | _ => next none

/-- A call on the concurrent machine. -/
def carryOut [Inhabited τ] (patience : Nat) : AtomicCall O I ρ τ α β → ConcurrentCall O I ρ τ β
  | .done b => .done b
  | .call (.transaction body) k => transact patience body fun a => carryOut patience (k (.result a))
  | .call (.query i) k => inquire i fun r => carryOut patience (k (.reply r))
  | .call .ask k => .call .ask fun r => carryOut patience (k (.told r.time))

end Machines

/-! ## Guarded transactions -/

section Guarded

variable {γ : Type}

/-- With the locks that it holds, a transaction works on regions only that they guard. -/
def Guarded (G : Regions R L O I ρ V) : List L → Program O ρ γ → Prop
  | _, .done _ => True
  | held, .call o k =>
    G.guard (G.region o) ∈ (G.locks o).toList ++ held ∧ ∀ r, Guarded G ((G.locks o).toList ++ held) (k r)

/-- The transactions of a call are guarded. -/
def Safe {β : Type} (G : Regions R L O I ρ V) : AtomicCall O I ρ τ α β → Prop
  | .done _ => True
  | .call (.transaction body) k => Guarded G [] body ∧ ∀ a, Safe G (k a)
  | .call (.query _) k => ∀ a, Safe G (k a)
  | .call .ask k => ∀ a, Safe G (k a)

theorem guarded_perform {held : List L} {o : O} {f : ρ → Program O ρ γ}
    (hguard : G.guard (G.region o) ∈ (G.locks o).toList ++ held)
    (h : ∀ r, Guarded G ((G.locks o).toList ++ held) (f r)) : Guarded G held (perform o >>= f) :=
  ⟨hguard, h⟩

/-- A call whose discipline lets it perform guarded transactions only. -/
theorem safe_of_follows {μ : Type} {D : Discipline μ (Request O I ρ α) (Answer ρ α τ)} {Q : μ → β → Prop}
    (hallows : ∀ m body, D.allows m (.transaction body) → Guarded G [] body) {p : AtomicCall O I ρ τ α β} {m : μ}
    (h : p.Follows D Q m) : Safe G p := by
  induction p generalizing m with
  | done => trivial
  | call request k ih =>
    cases request with
    | transaction body => exact ⟨hallows m body h.1, fun a => ih a (h.2 a)⟩
    | query | ask => exact fun a => ih a (h.2 a)

variable [DecidableEq R]

theorem overlay_record (o : O) (v : Option (V (G.region o))) (t : Tx L V) (s : (r : R) → V r) :
    overlay (G.record o v t).written s = match v with
      | none => overlay t.written s
      | some v => Function.update (overlay t.written s) (G.region o) v := by
  cases v with
  | none => rfl
  | some =>
    funext r
    by_cases hr : r = G.region o
    · subst hr
      simp [overlay, Regions.record]
    · simp [overlay, Regions.record, hr]

theorem apply_overlay (o : O) (t : Tx L V) (s : (r : R) → V r) :
    G.apply o (overlay t.written s) = ((G.exec o (overlay t.written s (G.region o))).1,
        overlay (G.record o (G.exec o (overlay t.written s (G.region o))).2 t).written s) := by
  rw [overlay_record]
  unfold Regions.apply
  split
  next heq => rw [heq]
  next heq => rw [heq]

/-- A transaction has come from its first operation to the rest, on the data that is committed now, and holds the
locks of the regions it has worked on. -/
inductive Ran (G : Regions R L O I ρ V) (body : Program O ρ γ) (s : (r : R) → V r) : Tx L V → Program O ρ γ → Prop where
  | start : Ran G body s .idle body
  | step {t : Tx L V} {o : O} {k : ρ → Program O ρ γ} (h : Ran G body s t (.call o k))
      (hguard : G.guard (G.region o) ∈ (G.locks o).toList ++ t.holds) :
      Ran G body s (G.record o (G.exec o (overlay t.written s (G.region o))).2 t)
        (k (G.exec o (overlay t.written s (G.region o))).1)

variable {body rest : Program O ρ γ} {s s' : (r : R) → V r} {t : Tx L V}

/-- **A transaction does not notice what happens in regions whose locks it does not hold.** -/
theorem Ran.frame (h : Ran G body s t rest) (hagree : ∀ r, G.guard r ∈ t.holds → s' r = s r) :
    Ran G body s' t rest := by
  induction h with
  | start => exact .start
  | @step t o k h hguard ih =>
    have hbefore : Ran G body s' t (.call o k) := ih fun r hr => hagree r (mem_append_right _ hr)
    have hsees : overlay t.written s' (G.region o) = overlay t.written s (G.region o) := by
      rw [overlay, overlay, hagree _ hguard]
    rw [← hsees]
    exact .step hbefore hguard

/-- The rest of a transaction, from what it sees, is the transaction. -/
theorem Ran.run_eq (h : Ran G body s t rest) : G.run rest (overlay t.written s) = G.run body s := by
  induction h with
  | start => rfl
  | @step t o k h hguard ih =>
    rw [← ih, Regions.run, apply_overlay]

theorem Ran.guard_mem (h : Ran G body s t rest) {r : R} (hr : t.written r ≠ none) : G.guard r ∈ t.holds := by
  induction h with
  | start => exact absurd rfl hr
  | @step t o k h hguard ih =>
    by_cases hregion : r = G.region o
    · subst hregion
      exact hguard
    · refine mem_append_right _ (ih fun hnone => hr ?_)
      unfold Regions.record
      split
      · exact hnone
      · simpa [hregion] using hnone

theorem Ran.atomically_commit {body : Program O ρ (Decision α)} {a : α} (h : Ran G body s t (.done (.commit a))) :
    G.atomically body s = (a, overlay t.written s) := by
  exact atomically_of_commit (by rw [← h.run_eq]; rfl)

theorem Ran.atomically_abort {body : Program O ρ (Decision α)} {a : α} (h : Ran G body s t (.done (.abort a))) :
    G.atomically body s = (a, s) := by
  unfold Regions.atomically
  rw [← h.run_eq]
  rfl

end Guarded

/-! ## The discipline of calls -/

section Discipline

/-- Where a call is: outside of transactions, or inside of one, with what follows it, its number and its rest. -/
inductive Mode (O I ρ τ α β : Type) where
  | outside (q : AtomicCall O I ρ τ α β)
  | inside (body : Program O ρ (Decision α)) (k : Answer ρ α τ → AtomicCall O I ρ τ α β) (tx : Nat)
      (rest : Program O ρ (Decision α))

/-- The call on the atomic machine, where a transaction is still to come until it ends. -/
def Mode.atomic : Mode O I ρ τ α β → AtomicCall O I ρ τ α β
  | .outside q => q
  | .inside body k _ _ => .call (.transaction body) k

def discipline [Inhabited τ] (G : Regions R L O I ρ V) : Discipline (Mode O I ρ τ α β) (Statement O I) (Reply ρ τ) where
  allows
    | .outside (.call (.transaction body) _), .begin => Guarded G [] body
    | .outside (.call (.query i) _), .query i' => i' = i
    | .outside (.call .ask _), .ask => True
    | .inside _ _ tx (.call o _), .op tx' o' => tx' = tx ∧ o' = o
    | .inside _ _ tx (.done (.commit _)), .commit tx' => tx' = tx
    | .inside _ _ tx (.call _ _), .rollback tx' => tx' = tx
    | .inside _ _ tx (.done (.abort _)), .rollback tx' => tx' = tx
    | _, _ => False
  after
    | .outside (.call (.transaction body) k), .begin, .began tx => .inside body k tx body
    | .outside (.call (.transaction _) k), _, _ => .outside (k (.result none))
    | .outside (.call (.query _) k), _, .reply r => .outside (k (.reply (some r)))
    | .outside (.call (.query _) k), _, _ => .outside (k (.reply none))
    | .outside (.call .ask k), _, r => .outside (k (.told r.time))
    | .inside body k tx (.call _ next), .op _ _, .reply r => .inside body k tx (next r)
    | .inside body k tx (.call o next), .op _ _, _ => .inside body k tx (.call o next)
    | .inside _ k _ (.done (.commit a)), .commit _, .ended => .outside (k (.result (some a)))
    | .inside _ k _ (.done (.abort a)), .rollback _, _ => .outside (k (.result (some a)))
    | .inside _ k _ _, _, _ => .outside (k (.result none))
    | m, _, _ => m

/-- A call that has returned has returned so on the atomic machine. -/
def Returned (m : Mode O I ρ τ α β) (b : β) : Prop := m = .outside (.done b)

variable [Inhabited τ]

theorem within_follows (patience tx : Nat) {body : Program O ρ (Decision α)} {k : Answer ρ α τ → AtomicCall O I ρ τ α β}
    {next : Option α → ConcurrentCall O I ρ τ β}
    (hnext : ∀ a, (next a).Follows (discipline G) Returned (.outside (k (.result a))))
    (rest : Program O ρ (Decision α)) :
    (within patience tx next rest).Follows (discipline G) Returned (.inside body k tx rest) := by
  induction rest with
  | done d =>
    cases d with
    | commit =>
      refine ⟨rfl, fun r => ?_⟩
      cases r <;> exact hnext _
    | abort => exact ⟨rfl, fun r => hnext _⟩
  | call o k' ih =>
    have hattempt : ∀ n, (attempt tx o (fun r => within patience tx next (k' r))
      (.call (.rollback tx) fun _ => next none)
        n).Follows (discipline G) Returned (.inside body k tx (.call o k')) := by
      intro n
      induction n with
      | zero => exact ⟨rfl, fun r => hnext _⟩
      | succ n ihn =>
        refine ⟨⟨rfl, rfl⟩, fun r => ?_⟩
        cases r with
        | reply r => exact ih r
        | blocked => exact ihn
        | began | ended | told | failed => exact ⟨rfl, fun r => hnext _⟩
    exact hattempt patience

/-- **The statements of a call follow the discipline.** -/
theorem carryOut_follows (patience : Nat) {q : AtomicCall O I ρ τ α β} (hsafe : Safe G q) :
    (carryOut patience q).Follows (discipline G) Returned (.outside q) := by
  induction q with
  | done => exact rfl
  | call request k ih =>
    cases request with
    | transaction body =>
      refine ⟨hsafe.1, fun r => ?_⟩
      cases r with
      | began tx => exact within_follows patience tx (fun a => ih _ (hsafe.2 _)) body
      | reply | blocked | ended | told | failed => exact ih _ (hsafe.2 _)
    | query =>
      refine ⟨rfl, fun r => ?_⟩
      cases r <;> exact ih _ (hsafe _)
    | ask => exact ⟨trivial, fun r => ih _ (hsafe _)⟩

end Discipline

/-! ## Refinement -/

section Refinement

variable {κ : Type}

/-- The transaction that a call is in. -/
def Mode.tx : Mode O I ρ τ α β → Option Nat
  | .outside _ => none
  | .inside _ _ tx _ => some tx

/-- No two transactions hold one lock. -/
structure Exclusive (s : Store L V) : Prop where
  disjoint : ∀ i j l, i ≠ j → l ∈ (s.txs i).holds → l ∉ (s.txs j).holds
  unused : ∀ i, s.next ≤ i → (s.txs i).holds = []

/-- The transactions are those of the calls that are inside of one, and each has come there on the data that is
committed now. -/
structure Linked [DecidableEq R] (G : Regions R L O I ρ V) (s : Store L V)
    (modes : List (κ × Mode O I ρ τ α β)) : Prop where
  exclusive : Exclusive s
  ran : ∀ (n : Nat) call body k tx rest, modes[n]? = some (call, .inside body k tx rest) →
    tx < s.next ∧ Ran G body s.committed (s.txs tx) rest ∧ Guarded G (s.txs tx).holds rest
  distinct : ∀ (n m : Nat) x y tx, modes[n]? = some x → modes[m]? = some y → x.2.tx = some tx → y.2.tx = some tx → n = m

abbrev AtomicPool (κ : Type) (V : R → Type) (O I ρ τ α β : Type) :=
  Pool ((r : R) → V r) κ (Request O I ρ α) (Answer ρ α τ) β

variable {s s' : Store L V} {modes : List (κ × Mode O I ρ τ α β)} {n : Nat} {call : κ} {m m' : Mode O I ρ τ α β}

theorem Exclusive.setTx (h : Exclusive s) {tx : Nat} {t : Tx L V} (hunused : s.next ≤ tx → t.holds = [])
    (hnew : ∀ l ∈ t.holds, ∀ j ≠ tx, l ∉ (s.txs j).holds) : Exclusive (s.setTx tx t) := by
  constructor
  · intro i j l hij hi hj
    simp only [Store.setTx, Function.update_apply] at hi hj
    split_ifs at hi hj with hitx hjtx hjtx
    · exact hij (hitx.trans hjtx.symm)
    · exact hnew l hi j hjtx hj
    · exact hnew l hj i hitx hi
    · exact h.disjoint i j l hij hi hj
  · intro i hi
    simp only [Store.setTx, Function.update_apply]
    split_ifs with hitx
    · exact hunused (hitx ▸ hi)
    · exact h.unused i hi

theorem Exclusive.setTx_idle (h : Exclusive s) (tx : Nat) : Exclusive (s.setTx tx .idle) := by
  refine h.setTx (fun _ => rfl) ?_
  rintro l ⟨⟩

/-- The turn of the atomic machine that a turn of the concurrent one becomes. -/
def SameCall : Turn κ Empty (Choice τ) → Turn κ Empty (Choice τ) → Prop
  | .start call, .start call' => call' = call
  | .step n _, .step n' _ => n' = n
  | _, _ => False

theorem SameCall.started {t u : Turn κ Empty (Choice τ)} (h : SameCall t u) : u.started = t.started := by
  cases t <;> cases u <;> first | exact h.elim | rfl | exact congrArg some h

variable [DecidableEq R] {body : Program O ρ (Decision α)} {k : Answer ρ α τ → AtomicCall O I ρ τ α β}

section

variable (h : Linked G s modes)

include h

theorem Linked.distinct_set (hn : modes[n]? = some (call, m))
    (hm' : ∀ tx, m'.tx = some tx → ∀ (i : Nat) x, modes[i]? = some x → x.2.tx = some tx → i = n) (i j : Nat)
    (x y : κ × Mode O I ρ τ α β) (tx : Nat) (hi : (modes.set n (call, m'))[i]? = some x)
    (hj : (modes.set n (call, m'))[j]? = some y) (hx : x.2.tx = some tx) (hy : y.2.tx = some tx) : i = j := by
  rcases getElem?_set_cases hn hi with ⟨rfl, rfl⟩ | ⟨-, hi'⟩ <;>
    rcases getElem?_set_cases hn hj with ⟨rfl, rfl⟩ | ⟨-, hj'⟩
  · rfl
  · exact (hm' tx hx j y hj' hy).symm
  · exact hm' tx hy i x hi' hx
  · exact h.distinct i j x y tx hi' hj' hx hy

theorem Linked.outside (hn : modes[n]? = some (call, m)) (q : AtomicCall O I ρ τ α β) :
    Linked G s (modes.set n (call, .outside q)) := by
  refine ⟨h.exclusive, fun i call' body k tx rest hi => ?_, h.distinct_set hn (by rintro tx ⟨⟩)⟩
  rcases getElem?_set_cases hn hi with ⟨-, heq⟩ | ⟨-, hi⟩
  · cases heq
  · exact h.ran i call' body k tx rest hi

theorem Linked.leave {rest : Program O ρ (Decision α)} {tx : Nat}
    (hn : modes[n]? = some (call, .inside body k tx rest)) (q : AtomicCall O I ρ τ α β) {data : (r : R) → V r}
    (hdata : ∀ r, G.guard r ∉ (s.txs tx).holds → data r = s.committed r) :
    Linked G { s.setTx tx .idle with committed := data } (modes.set n (call, .outside q)) := by
  have hleft := h.outside hn q
  refine ⟨⟨(h.exclusive.setTx_idle tx).disjoint, (h.exclusive.setTx_idle tx).unused⟩,
    fun i call' body' k' tx' rest' hi => ?_, hleft.distinct⟩
  -- the others are in other transactions, whose locks are others
  rcases getElem?_set_cases hn hi with ⟨-, heq⟩ | ⟨hin, hi⟩
  · cases heq
  have hne : tx' ≠ tx := by
    rintro rfl
    exact hin (h.distinct i n _ _ tx' hi hn rfl rfl)
  obtain ⟨hlt, hran, hguarded⟩ := h.ran i call' body' k' tx' rest' hi
  have hsame : (s.setTx tx .idle).txs tx' = s.txs tx' := by simp [Store.setTx, hne]
  refine ⟨hlt, ?_, ?_⟩
  · rw [hsame]
    exact hran.frame fun r hr => hdata r (h.exclusive.disjoint tx' tx _ hne hr)
  · rwa [hsame]

theorem Linked.begin (hn : modes[n]? = some (call, m)) (k : Answer ρ α τ → AtomicCall O I ρ τ α β)
    (hguarded : Guarded G [] body) :
    Linked G { s.setTx s.next .idle with next := s.next + 1 } (modes.set n (call, .inside body k s.next body)) := by
  have hnew : (s.setTx s.next .idle).txs s.next = .idle := by simp [Store.setTx]
  refine ⟨⟨(h.exclusive.setTx_idle s.next).disjoint, fun i hi => ?_⟩,
    fun i call' body' k' tx' rest' hi => ?_, h.distinct_set hn ?_⟩
  · exact (h.exclusive.setTx_idle s.next).unused i (Nat.le_of_succ_le hi)
  · rcases getElem?_set_cases hn hi with ⟨-, heq⟩ | ⟨-, hi⟩
    · obtain ⟨-, rfl, rfl, rfl, rfl⟩ : _ ∧ body' = body ∧ k' = k ∧ tx' = s.next ∧ rest' = body := by
        simpa using heq
      refine ⟨Nat.lt_succ_self _, ?_, ?_⟩
      · rw [hnew]
        exact .start
      · rwa [hnew]
    · obtain ⟨hlt, hran, hguarded'⟩ := h.ran i call' body' k' tx' rest' hi
      have hsame : (s.setTx s.next .idle).txs tx' = s.txs tx' := by simp [Store.setTx, Nat.ne_of_lt hlt]
      refine ⟨Nat.lt_succ_of_lt hlt, ?_, ?_⟩
      · rwa [hsame]
      · rwa [hsame]
  · -- the number is new
    rintro _ ⟨⟩ i ⟨call', m⟩ hi htx
    cases m with
    | outside => cases htx
    | inside body' k' tx' rest' =>
      cases htx
      exact absurd (h.ran i call' body' k' _ rest' hi).1 (Nat.lt_irrefl _)

/-- An operation of a transaction, with a lock that nobody else holds. -/
theorem Linked.op {tx : Nat} {o : O} {next : ρ → Program O ρ (Decision α)}
    (hn : modes[n]? = some (call, .inside body k tx (.call o next))) (hfree : ¬ ∃ l ∈ G.locks o, s.Busy tx l) :
    Linked G (s.setTx tx (G.record o (G.exec o (overlay (s.txs tx).written s.committed (G.region o))).2 (s.txs tx)))
      (modes.set n (call, .inside body k tx
        (next (G.exec o (overlay (s.txs tx).written s.committed (G.region o))).1))) := by
  obtain ⟨hlt, hran, hguarded⟩ := h.ran n call body k tx _ hn
  generalize hx : G.exec o (overlay (s.txs tx).written s.committed (G.region o)) = x
  have hself : (s.setTx tx (G.record o x.2 (s.txs tx))).txs tx = G.record o x.2 (s.txs tx) := by simp [Store.setTx]
  have hother : ∀ j, j ≠ tx → (s.setTx tx (G.record o x.2 (s.txs tx))).txs j = s.txs j := by
    intro j hj
    simp [Store.setTx, hj]
  -- the new lock is nobody else's
  have hnew : ∀ l j, l ∈ (G.locks o).toList → j ≠ tx → l ∉ (s.txs j).holds := by
    intro l j hl hj hmem
    refine hfree ⟨l, Option.mem_toList.mp hl, j, ?_, hj, hmem⟩
    by_contra hle
    rw [h.exclusive.unused j (Nat.le_of_not_lt hle)] at hmem
    cases hmem
  refine ⟨h.exclusive.setTx (fun hle => absurd hlt (Nat.not_lt_of_le hle)) fun l hl j hj => ?_,
    fun i call' body' k' tx' rest' hi => ?_,
    h.distinct_set hn fun tx' htx' i y hi hy => h.distinct i n y _ tx' hi hn hy htx'⟩
  · rcases mem_append.mp hl with hl | hl
    · exact hnew l j hl hj
    · exact h.exclusive.disjoint tx j l (.symm hj) hl
  · rcases getElem?_set_cases hn hi with ⟨-, heq⟩ | ⟨hin, hbefore⟩
    · obtain ⟨-, rfl, rfl, rfl, rfl⟩ : _ ∧ body' = body ∧ k' = k ∧ tx' = tx ∧ rest' = next x.1 := by
        simpa using heq
      rw [hself, ← hx]
      exact ⟨hlt, hran.step hguarded.1, hguarded.2 _⟩
    · have hne : tx' ≠ tx := by
        intro heq
        subst heq
        exact hin (h.distinct i n _ _ tx' hbefore hn rfl rfl)
      rw [hother tx' hne]
      exact h.ran i call' body' k' tx' rest' hbefore

end

theorem Linked.start (h : Linked G s modes) (q : AtomicCall O I ρ τ α β) :
    Linked G s (modes ++ [(call, .outside q)]) := by
  have hold : ∀ (i : Nat) x, (modes ++ [(call, .outside q)])[i]? = some x → modes[i]? = some x ∨ x.2.tx = none := by
    intro i x hi
    rw [getElem?_append] at hi
    split at hi
    · exact .inl hi
    · obtain rfl := mem_singleton.mp (mem_of_getElem? hi)
      exact .inr rfl
  refine ⟨h.exclusive, fun i call' body k tx rest hi => ?_, fun i j x y tx hi hj hx hy => ?_⟩
  · rcases hold i _ hi with hi | htx
    · exact h.ran i call' body k tx rest hi
    · cases htx
  · rcases hold i x hi with hi | htx
    · rcases hold j y hj with hj | htx
      · exact h.distinct i j x y tx hi hj hx hy
      · exact absurd (htx.symm.trans hy) (by simp)
    · exact absurd (htx.symm.trans hx) (by simp)

variable {Q : AtomicPool κ V O I ρ τ α β} {program : κ → AtomicCall O I ρ τ α β}

/-- The calls on the atomic machine. -/
abbrev atomicCalls (G : Regions R L O I ρ V) (program : κ → AtomicCall O I ρ τ α β) :
    Mealy (AtomicPool κ V O I ρ τ α β) (Turn κ Empty (Choice τ)) (Option (Answer ρ α τ)) :=
  Pool.machine G.atomic program Prod.mk Empty.elim

/-- The calls on the atomic machine are as far, and the data is what is committed. -/
structure Abreast (G : Regions R L O I ρ V) (Q : AtomicPool κ V O I ρ τ α β) (s : Store L V)
    (modes : List (κ × Mode O I ρ τ α β)) : Prop where
  linked : Linked G s modes
  shared : Q.shared = s.committed
  calls : Q.calls = modes.map fun x => (x.1, x.2.atomic)

/-- They are, possibly after a step of one call. -/
def CatchesUp (G : Regions R L O I ρ V) (program : κ → AtomicCall O I ρ τ α β) (n : Nat)
    (Q : AtomicPool κ V O I ρ τ α β) (s : Store L V) (modes : List (κ × Mode O I ρ τ α β)) : Prop :=
  Abreast G Q s modes ∨ ∃ c, Abreast G ((atomicCalls G program).next Q (.step n c)) s modes

/-- They are after a statement of the call. -/
abbrev Advances [DecidableEq L] [Inhabited τ] (G : Regions R L O I ρ V) (program : κ → AtomicCall O I ρ τ α β)
    (Q : AtomicPool κ V O I ρ τ α β) (s : Store L V) (modes : List (κ × Mode O I ρ τ α β)) (n : Nat) (call : κ)
    (m : Mode O I ρ τ α β) (st : Statement O I) (c : Choice τ) : Prop :=
  CatchesUp G program n Q (G.concurrent.next s (st, c))
    (modes.set n (call, (discipline G).after m st (G.concurrent.out s (st, c))))

namespace Abreast

variable (h : Abreast G Q s modes)

include h

theorem both (hlinked : Linked G s' (modes.set n (call, m')))
    (hn : modes[n]? = some (call, m)) {request : Request O I ρ α}
    (hm : m.atomic = .call request k) (c : Choice τ)
    (hs : s'.committed = G.atomic.next s.committed (request, c))
    (hm' : m'.atomic = k (G.atomic.out s.committed (request, c))) :
    CatchesUp G program n Q s' (modes.set n (call, m')) := by
  have hcall : Q.calls[n]? = some (call, .call request k) := by
    rw [h.calls, getElem?_map, hn, ← hm]
    rfl
  obtain ⟨hnext, -⟩ := next_step G.atomic program .mk Empty.elim hcall c
  refine .inr ⟨c, hlinked, ?_, ?_⟩
  · rw [hnext, hs, h.shared]
  · rw [hnext, h.calls, map_set, hm', h.shared]

theorem alone (hlinked : Linked G s' (modes.set n (call, m')))
    (hn : modes[n]? = some (call, m)) (hs : s'.committed = s.committed) (hm' : m'.atomic = m.atomic) :
    CatchesUp G program n Q s' (modes.set n (call, m')) := by
  have hcall : (modes.map fun x => (x.1, x.2.atomic))[n]? = some (call, m.atomic) := by
    rw [getElem?_map, hn]
    rfl
  obtain ⟨hlt, hget⟩ := List.getElem?_eq_some_iff.mp hcall
  refine .inl ⟨hlinked, h.shared.trans hs.symm, ?_⟩
  rw [h.calls, map_set, hm', ← hget, set_getElem_self]

theorem start (call : κ) :
    Abreast G ((atomicCalls G program).next Q (.start call)) s (modes ++ [(call, .outside (program call))]) := by
  refine ⟨h.linked.start _, h.shared, ?_⟩
  change Q.calls ++ [(call, program call)] = _
  rw [h.calls, map_append]
  rfl

variable [DecidableEq L] [Inhabited τ] {body : Program O ρ (Decision α)} {k : Answer ρ α τ → AtomicCall O I ρ τ α β}
  {tx : Nat} {c : Choice τ}

theorem begin (hn : modes[n]? = some (call, .outside (.call (.transaction body) k))) (hguarded : Guarded G [] body) :
    Advances G program Q s modes n call (.outside (.call (.transaction body) k)) .begin c := by
  unfold Advances
  by_cases hfate : c.fate = .answered
  · have hexec : G.concurrent.exec s (.begin, c) = (.began s.next, { s.setTx s.next .idle with next := s.next + 1 }) :=
      if_pos hfate
    rw [Mealy.next, Mealy.out, hexec]
    exact h.alone (h.linked.begin hn k hguarded) hn rfl rfl
  · have hexec : G.concurrent.exec s (.begin, c) = (.failed, s) := if_neg hfate
    rw [Mealy.next, Mealy.out, hexec]
    exact h.both (h.linked.outside hn _) hn rfl ⟨c.told, .refused⟩ rfl rfl

theorem query {i : I} (hn : modes[n]? = some (call, .outside (.call (.query i) k))) :
    Advances G program Q s modes n call (.outside (.call (.query i) k)) (.query i) c := by
  have hatomic : G.atomic.out s.committed (.query i, c) = .reply (α := α)
      (if c.fate = .answered then some (G.look i s.committed) else none) := rfl
  have hexec : G.concurrent.out s (.query i, c) =
      if c.fate = .answered then .reply (G.look i s.committed) else .failed := rfl
  rw [Advances, hexec]
  by_cases hfate : c.fate = .answered
  · rw [if_pos hfate] at hatomic ⊢
    exact h.both (h.linked.outside hn _) hn rfl c rfl (congrArg k hatomic.symm)
  · rw [if_neg hfate] at hatomic ⊢
    exact h.both (h.linked.outside hn _) hn rfl c rfl (congrArg k hatomic.symm)

theorem ask (hn : modes[n]? = some (call, .outside (.call .ask k))) :
    Advances G program Q s modes n call (.outside (.call .ask k)) .ask c :=
  h.both (h.linked.outside hn _) hn rfl c rfl rfl

theorem op {o : O} {next : ρ → Program O ρ (Decision α)}
    (hn : modes[n]? = some (call, .inside body k tx (.call o next))) :
    Advances G program Q s modes n call (.inside body k tx (.call o next)) (.op tx o) c := by
  unfold Advances
  have hstay : CatchesUp G program n Q s (modes.set n (call, .inside body k tx (.call o next))) := by
    obtain ⟨hlt, hget⟩ := List.getElem?_eq_some_iff.mp hn
    rw [← hget, set_getElem_self]
    exact .inl h
  by_cases hfate : c.fate = .answered
  · have hexec : G.concurrent.exec s (.op tx o, c) = G.perform tx o s := if_pos hfate
    rw [Mealy.next, Mealy.out, hexec]
    by_cases hbusy : ∃ l ∈ G.locks o, s.Busy tx l
    · rw [Regions.perform, if_pos hbusy]
      exact hstay
    · rw [Regions.perform, if_neg hbusy]
      exact h.alone (h.linked.op hn hbusy) hn rfl rfl
  · have hexec : G.concurrent.exec s (.op tx o, c) = (.failed, s) := if_neg hfate
    rw [Mealy.next, Mealy.out, hexec]
    exact hstay

theorem commit {a : α} (hn : modes[n]? = some (call, .inside body k tx (.done (.commit a)))) :
    Advances G program Q s modes n call (.inside body k tx (.done (.commit a))) (.commit tx) c := by
  obtain ⟨-, hran, -⟩ := h.linked.ran n call body k tx _ hn
  have hatomic := hran.atomically_commit
  have hunwritten : ∀ r, G.guard r ∉ (s.txs tx).holds → overlay (s.txs tx).written s.committed r = s.committed r := by
    intro r hr
    have hnone : (s.txs tx).written r = none := by
      by_contra hwritten
      exact hr (hran.guard_mem hwritten)
    rw [overlay, hnone, Option.getD_none]
  have hpublish : ∀ q, Linked G (s.publish tx) (modes.set n (call, .outside q)) := fun q =>
    h.linked.leave hn q hunwritten
  obtain ⟨t, fate⟩ := c
  cases fate with
  | refused => exact h.both (h.linked.leave hn _ fun _ _ => rfl) hn rfl ⟨t, .refused⟩ rfl rfl
  | answered =>
    refine h.both (hpublish _) hn rfl ⟨t, .answered⟩ ?_ ?_
    · change overlay (s.txs tx).written s.committed = (G.atomically body s.committed).2
      rw [hatomic]
    · change k (.result (some a)) = k (.result (some (G.atomically body s.committed).1))
      rw [hatomic]
  | lost =>
    refine h.both (hpublish _) hn rfl ⟨t, .lost⟩ ?_ rfl
    change overlay (s.txs tx).written s.committed = (G.atomically body s.committed).2
    rw [hatomic]

theorem rollback {rest : Program O ρ (Decision α)}
    (hn : modes[n]? = some (call, .inside body k tx rest)) (hrest : ∀ a, rest ≠ .done (.commit a)) :
    Advances G program Q s modes n call (.inside body k tx rest) (.rollback tx) c := by
  obtain ⟨-, hran, -⟩ := h.linked.ran n call body k tx _ hn
  cases rest with
  | call => exact h.both (h.linked.leave hn _ fun _ _ => rfl) hn rfl ⟨c.told, .refused⟩ rfl rfl
  | done d =>
    cases d with
    | commit a => exact absurd rfl (hrest a)
    | abort a =>
      have hatomic := hran.atomically_abort
      refine h.both (h.linked.leave hn _ fun _ _ => rfl) hn rfl ⟨c.told, .answered⟩ ?_ ?_
      · change s.committed = (G.atomically body s.committed).2
        rw [hatomic]
      · change k (.result (some a)) = k (.result (some (G.atomically body s.committed).1))
        rw [hatomic]

theorem step (hn : modes[n]? = some (call, m)) {st : Statement O I}
    (hallows : (discipline G).allows m st) : Advances G program Q s modes n call m st c := by
  unfold discipline at hallows
  simp only at hallows
  split at hallows
  · exact h.begin hn hallows
  · obtain rfl := hallows
    exact h.query hn
  · exact h.ask hn
  · obtain ⟨rfl, rfl⟩ := hallows
    exact h.op hn
  · obtain rfl := hallows
    exact h.commit hn
  · obtain rfl := hallows
    exact h.rollback hn (by simp)
  · obtain rfl := hallows
    exact h.rollback hn (by simp)
  · exact hallows.elim

end Abreast

variable [Inhabited τ] {P : Pool (Store L V) κ (Statement O I) (Reply ρ τ) β}

/-- A pool on the concurrent machine and one on the atomic machine that are as far. -/
def Refined (G : Regions R L O I ρ V) (P : Pool (Store L V) κ (Statement O I) (Reply ρ τ) β)
    (Q : AtomicPool κ V O I ρ τ α β) : Prop :=
  ∃ modes, Pool.Follow (discipline G) Returned P.calls modes ∧ Abreast G Q P.shared modes

theorem Refined.shared (h : Refined G P Q) : Q.shared = P.shared.committed := by
  obtain ⟨modes, -, habreast⟩ := h
  exact habreast.shared

theorem Refined.labels (h : Refined G P Q) : Q.calls.map Prod.fst = P.calls.map Prod.fst := by
  obtain ⟨modes, hfollow, habreast⟩ := h
  rw [habreast.calls, map_map]
  exact hfollow.labels

theorem Refined.returned (h : Refined G P Q) {b : β} (hcall : P.calls[n]? = some (call, .done b)) :
    Q.calls[n]? = some (call, .done b) := by
  obtain ⟨modes, hfollow, habreast⟩ := h
  obtain ⟨m, hmode, hreturned⟩ := hfollow.mode_of_call hcall
  obtain rfl : m = .outside (.done b) := hreturned
  rw [habreast.calls, getElem?_map, hmode]
  rfl

/-- A store without transactions. -/
def Store.of (data : (r : R) → V r) : Store L V := ⟨data, fun _ => .idle, 0⟩

theorem refined_of (data : (r : R) → V r) :
    Refined G (⟨.of data, []⟩ : Pool (Store L V) κ (Statement O I) (Reply ρ τ) β)
      (⟨data, []⟩ : AtomicPool κ V O I ρ τ α β) := by
  refine ⟨[], .nil, ⟨⟨?_, ?_⟩, ?_, ?_⟩, rfl, rfl⟩
  · rintro i j l - ⟨⟩
  · exact fun _ _ => rfl
  · rintro n call body k tx rest ⟨⟩
  · rintro n m x y tx ⟨⟩

variable [DecidableEq L]

/-- The calls on the concurrent machine. -/
abbrev concurrentCalls (G : Regions R L O I ρ V) (patience : Nat) (program : κ → AtomicCall O I ρ τ α β) :
    Mealy (Pool (Store L V) κ (Statement O I) (Reply ρ τ) β) (Turn κ Empty (Choice τ)) (Option (Reply ρ τ)) :=
  Pool.machine G.concurrent (fun call => carryOut patience (program call)) Prod.mk Empty.elim

variable (program) in
/-- **A turn of guarded transactions is none or one of atomic transactions**, of the same call. -/
theorem Refined.next (h : Refined G P Q) (patience : Nat) (t : Turn κ Empty (Choice τ))
    (hsafe : ∀ call, t = .start call → Safe G (program call)) :
    (t.started = none ∧ Refined G ((concurrentCalls G patience program).next P t) Q) ∨ ∃ u, SameCall t u ∧
        Refined G ((concurrentCalls G patience program).next P t) ((atomicCalls G program).next Q u) := by
  obtain ⟨modes, hfollow, habreast⟩ := h
  cases t with
  | outside e => exact e.elim
  | start call =>
    refine .inr ⟨.start call, rfl, modes ++ [(call, .outside (program call))], ?_, habreast.start call⟩
    exact rel_append hfollow (.cons ⟨rfl, carryOut_follows patience (hsafe call rfl)⟩ .nil)
  | step n c =>
    rcases hfollow.next G.concurrent (fun call => carryOut patience (program call)) Prod.mk Empty.elim n c with
      ⟨hturn, -⟩ | ⟨call, m, st, hmode, hallows, -, hshared, hfollow'⟩
    · rw [hturn]
      exact .inl ⟨rfl, modes, hfollow, habreast⟩
    · have hcaught : CatchesUp G program n Q _ _ := habreast.step (c := c) hmode hallows
      rw [← hshared] at hcaught
      rcases hcaught with hcaught | ⟨c', hcaught⟩
      · exact .inl ⟨rfl, _, hfollow', hcaught⟩
      · exact .inr ⟨.step n c', rfl, _, hfollow', hcaught⟩

variable (program) in
/-- **Guarded transactions are atomic.** A run on the concurrent machine is a run of the same calls on the atomic
machine. -/
theorem Refined.run (h : Refined G P Q) (patience : Nat) (ts : List (Turn κ Empty (Choice τ)))
    (hsafe : ∀ call, Turn.start call ∈ ts → Safe G (program call)) :
    ∃ us, us.filterMap Turn.started = ts.filterMap Turn.started ∧
      Refined G ((concurrentCalls G patience program).run P ts) ((atomicCalls G program).run Q us) := by
  induction ts generalizing P Q with
  | nil => exact ⟨[], rfl, h⟩
  | cons t ts ih =>
    have ih := fun {P : Pool (Store L V) κ (Statement O I) (Reply ρ τ) β}
      {Q : AtomicPool κ V O I ρ τ α β} (h : Refined G P Q) =>
      ih h fun call hmem => hsafe call (mem_cons_of_mem _ hmem)
    rcases h.next program patience t fun call heq => hsafe call (heq ▸ mem_cons_self) with
      ⟨hstarted, hnext⟩ | ⟨u, hsame, hnext⟩
    · obtain ⟨us, hstarts, hrun⟩ := ih hnext
      exact ⟨us, by rw [hstarts, filterMap_cons_none hstarted], hrun⟩
    · obtain ⟨us, hstarts, hrun⟩ := ih hnext
      refine ⟨u :: us, ?_, hrun⟩
      rw [filterMap_cons, filterMap_cons, hsame.started, hstarts]

end Refinement

end Transactions
