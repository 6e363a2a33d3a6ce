import Mathlib.Data.List.Forall2
import Mathlib.Data.List.Perm.Basic
import RelayHub.Lib.Mealy

/-! # Calls that run at the same time

A *program* is one call of a client: it performs statements on a state that it shares with every other
call, one at a time, and decides by each reply what to do next. A *pool* runs any number of calls. Whoever
schedules it starts calls, lets one of them perform its next statement, and chooses what the call cannot
know: the clock, say, or whether the reply arrives. What happens to the shared state outside of all calls
is a turn of its own.

`run_shared` reduces the shared state of a pool to a run of the machine it shares: what every sequence of
inputs keeps, every interleaving of calls keeps. If it takes a restriction of the statements to keep it,
`Performs` says that a call makes such statements only, if it gets the replies that the invariant allows, and
`performs_run` is the invariant rule. For what
depends on where the calls are, a `Discipline` gives each call a *mode* that the replies change, and says
which statements a mode allows. `Follows` says that a call keeps to it, and `follows_run` is the invariant
rule: a property of the shared state and the modes that each allowed statement keeps holds in every pool
whose calls follow the discipline. Both rules also pass on the inputs that the shared machine has taken. -/

open List

universe u v w x

/-- A call: its result, or its next statement and how it goes on. -/
inductive Program (σ : Type u) (ρ : Type v) (α : Type w) where
  | done (result : α)
  | call (statement : σ) (next : ρ → Program σ ρ α)

namespace Program

variable {σ : Type u} {ρ : Type v} {α β : Type w}

protected def bind : Program σ ρ α → (α → Program σ ρ β) → Program σ ρ β
  | .done a, f => f a
  | .call s k, f => .call s fun r => (k r).bind f

instance : Monad (Program σ ρ) where
  pure := .done
  bind := Program.bind

/-- The same call on a machine with other statements and replies. -/
def translate {σ' : Type*} {ρ' : Type*} (f : σ → σ') (g : ρ' → ρ) : Program σ ρ α → Program σ' ρ' α
  | .done a => .done a
  | .call s k => .call (f s) fun r => (k (g r)).translate f g

/-- Performs one statement and returns its reply. -/
def perform {ρ : Type w} (s : σ) : Program σ ρ ρ := .call s .done

/-- The result of a call whose statements all get the same replies. -/
def result (reply : σ → ρ) : Program σ ρ α → α
  | .done a => a
  | .call s k => (k (reply s)).result reply

@[simp] theorem result_pure (reply : σ → ρ) (a : α) : (pure a : Program σ ρ α).result reply = a := rfl

@[simp] theorem result_perform {ρ : Type w} (reply : σ → ρ) (s : σ) : (perform s).result reply = reply s := rfl

@[simp] theorem result_bind (reply : σ → ρ) (p : Program σ ρ α) (f : α → Program σ ρ β) :
    (p >>= f).result reply = (f (p.result reply)).result reply := by
  induction p with
  | done => rfl
  | call s k ih => exact ih (reply s)

/-- The statements of such a call. -/
def statements (reply : σ → ρ) : Program σ ρ α → List σ
  | .done _ => []
  | .call s k => s :: (k (reply s)).statements reply

@[simp] theorem statements_pure (reply : σ → ρ) (a : α) : (pure a : Program σ ρ α).statements reply = [] := rfl

@[simp] theorem statements_perform {ρ : Type w} (reply : σ → ρ) (s : σ) : (perform s).statements reply = [s] := rfl

@[simp] theorem statements_bind (reply : σ → ρ) (p : Program σ ρ α) (f : α → Program σ ρ β) :
    (p >>= f).statements reply = p.statements reply ++ (f (p.result reply)).statements reply := by
  induction p with
  | done => rfl
  | call s k ih => exact congrArg (s :: ·) (ih (reply s))

end Program

/-- What becomes of a statement. -/
inductive Fate where
  | answered
  /-- It takes effect, and the reply does not arrive. -/
  | lost
  | refused
  deriving DecidableEq

/-! ## Disciplines -/

/-- Which statements a call may perform in a mode, and the mode after a reply. -/
structure Discipline (μ : Type x) (σ : Type u) (ρ : Type v) where
  allows : μ → σ → Prop
  after : μ → σ → ρ → μ

namespace Program

variable {μ : Type x} {σ : Type u} {ρ : Type v} {α β : Type w} {D : Discipline μ σ ρ} {m : μ} {Q : μ → α → Prop}
  {p : Program σ ρ α}

/-- From mode `m` the call performs allowed statements only, and it ends with a result and in a mode that
`Q` accepts, whatever the replies are. -/
def Follows (D : Discipline μ σ ρ) (Q : μ → α → Prop) : μ → Program σ ρ α → Prop
  | m, .done a => Q m a
  | m, .call s k => D.allows m s ∧ ∀ r, (k r).Follows D Q (D.after m s r)

theorem follows_pure {a : α} (h : Q m a) : (pure a : Program σ ρ α).Follows D Q m := h

theorem Follows.bind {R : μ → β → Prop} {f : α → Program σ ρ β} (h : p.Follows D Q m)
    (hf : ∀ m a, Q m a → (f a).Follows D R m) : (p >>= f).Follows D R m := by
  induction p generalizing m with
  | done a => exact hf m a h
  | call s k ih => exact ⟨h.1, fun r => ih r (h.2 r)⟩

theorem follows_perform {ρ : Type w} {D : Discipline μ σ ρ} {R : μ → β → Prop} {s : σ} {f : ρ → Program σ ρ β}
    (hs : D.allows m s) (h : ∀ r, (f r).Follows D R (D.after m s r)) : (perform s >>= f).Follows D R m :=
  ⟨hs, h⟩

theorem Follows.mono {R : μ → α → Prop} (h : p.Follows D Q m) (hQ : ∀ m a, Q m a → R m a) : p.Follows D R m := by
  induction p generalizing m with
  | done a => exact hQ m a h
  | call s k ih => exact ⟨h.1, fun r => ih r (h.2 r)⟩

theorem Follows.translate {σ' : Type*} {ρ' : Type*} {f : σ → σ'} {g : ρ' → ρ} {D' : Discipline μ σ' ρ'}
    (hallows : ∀ m s, D.allows m s → D'.allows m (f s)) (hafter : ∀ m s r, D'.after m (f s) r = D.after m s (g r))
    (h : p.Follows D Q m) : (p.translate f g).Follows D' Q m := by
  induction p generalizing m with
  | done => exact h
  | call s k ih => exact ⟨hallows _ _ h.1, fun r => ih (g r) (hafter m s r ▸ h.2 (g r))⟩

end Program

/-! ## Restrictions -/

namespace Program

variable {σ : Type u} {ρ : Type v} {α β : Type w}

/-- Every statement that the call performs meets `Q`, and its result meets `post`, if the replies are those of `A`. -/
def Performs (A : σ → ρ → Prop) (Q : σ → Prop) (post : α → Prop) : Program σ ρ α → Prop
  | .done a => post a
  | .call s k => Q s ∧ ∀ r, A s r → (k r).Performs A Q post

variable {A : σ → ρ → Prop} {Q : σ → Prop} {post : α → Prop} {p : Program σ ρ α}

theorem Performs.bind {post' : β → Prop} {f : α → Program σ ρ β} (h : p.Performs A Q post)
    (hf : ∀ a, post a → (f a).Performs A Q post') : (p >>= f).Performs A Q post' := by
  induction p with
  | done a => exact hf a h
  | call s k ih => exact ⟨h.1, fun r hr => ih r (h.2 r hr)⟩

/-- The rule for loops. -/
theorem performs_forM {γ : Type*} {xs : List γ} {f : γ → Program σ ρ PUnit}
    (h : ∀ x ∈ xs, (f x).Performs A Q fun _ => True) : (xs.forM f).Performs A Q fun _ => True := by
  induction xs with
  | nil => trivial
  | cons x xs ih => exact (h x mem_cons_self).bind fun _ _ => ih fun y hy => h y (mem_cons_of_mem _ hy)

theorem Performs.mono {A' : σ → ρ → Prop} {Q' : σ → Prop} (h : p.Performs A Q post) (hA : ∀ s r, A' s r → A s r)
    (hQ : ∀ s, Q s → Q' s) : p.Performs A' Q' post := by
  induction p with
  | done a => exact h
  | call s k ih => exact ⟨hQ s h.1, fun r hr => ih r (h.2 r (hA s r hr))⟩

theorem Follows.performs {μ : Type*} {D : Discipline μ σ ρ} {R : μ → α → Prop} {m : μ} (h : p.Follows D R m)
    (hallows : ∀ m s, D.allows m s → Q s) (hpost : ∀ m a, R m a → post a) : p.Performs A Q post := by
  induction p generalizing m with
  | done a => exact hpost m a h
  | call s k ih => exact ⟨hallows m s h.1, fun r _ => ih r (h.2 r)⟩

end Program

/-- The replies that a statement can get from a machine. -/
def Mealy.Answers {S ι χ : Type*} {σ : Type u} {ρ : Type v} (M : Mealy S ι ρ) (inject : σ → χ → ι) (s : σ) (r : ρ) :
    Prop :=
  ∃ S c, r = M.out S (inject s c)

/-! ## Replies that a call needs -/

namespace Program

variable {σ : Type u} {ρ : Type v} {α β : Type w} {opens : σ → ρ → Prop} {post : α → Prop}

/-- The result meets `post`, unless some reply on the way is one of those that open. -/
def Unless (opens : σ → ρ → Prop) (post : α → Prop) : Program σ ρ α → Prop
  | .done a => post a
  | .call s k => ∀ r, opens s r ∨ (k r).Unless opens post

theorem unless_pure {a : α} (h : post a) : (pure a : Program σ ρ α).Unless opens post := h

theorem Unless.bind {post' : β → Prop} {p : Program σ ρ α} {f : α → Program σ ρ β} (h : p.Unless opens post)
    (hf : ∀ a, post a → (f a).Unless opens post') : (p >>= f).Unless opens post' := by
  induction p with
  | done a => exact hf a h
  | call s k ih => exact fun r => (h r).imp_right (ih r)

theorem unless_perform {ρ : Type w} {opens : σ → ρ → Prop} {post : β → Prop} {s : σ} {f : ρ → Program σ ρ β}
    (h : ∀ r, opens s r ∨ (f r).Unless opens post) : (perform s >>= f).Unless opens post := h

theorem unless_of_forall (h : ∀ a, post a) (p : Program σ ρ α) : p.Unless opens post := by
  induction p with
  | done a => exact h a
  | call s k ih => exact fun r => .inr (ih r)

end Program

/-! ## Pools -/

/-- The shared state and the calls, each with what is left of it. -/
structure Pool (S : Type*) (κ : Type*) (σ : Type u) (ρ : Type v) (α : Type w) where
  shared : S
  calls : List (κ × Program σ ρ α)

/-- A turn of a pool: a call starts, performs its next statement, or something else happens. -/
inductive Turn (κ ε χ : Type*) where
  | start (call : κ)
  | step (call : Nat) (choice : χ)
  | outside (event : ε)

/-- The call that starts in a turn. -/
def Turn.started {κ ε χ : Type*} : Turn κ ε χ → Option κ
  | .start call => some call
  | _ => none

namespace Pool

variable {S κ ι ε χ : Type*} {σ : Type u} {ρ : Type v} {α : Type w}
variable (M : Mealy S ι ρ) (body : κ → Program σ ρ α) (inject : σ → χ → ι) (outside : ε → ι) {P : Pool S κ σ ρ α}
  {n : Nat}

/-- The input of the shared machine that a turn is, if it is one. -/
def input (P : Pool S κ σ ρ α) : Turn κ ε χ → Option ι
  | .start _ => none
  | .step n c =>
    match P.calls[n]? with
    | some (_, .call s _) => some (inject s c)
    | _ => none
  | .outside e => some (outside e)

/-- The machine of a pool; its output is the reply of the turn's input. -/
def machine : Mealy (Pool S κ σ ρ α) (Turn κ ε χ) (Option ρ) where
  exec P
    | .start call => (none, { P with calls := P.calls ++ [(call, body call)] })
    | .step n c =>
      match P.calls[n]? with
      | some (call, .call s k) =>
        let r := M.exec P.shared (inject s c)
        (some r.1, { shared := r.2, calls := P.calls.set n (call, k r.1) })
      | _ => (none, P)
    | .outside e =>
      let r := M.exec P.shared (outside e)
      (some r.1, { P with shared := r.2 })

/-- The inputs the shared machine takes in a run. -/
def inputs (P : Pool S κ σ ρ α) : List (Turn κ ε χ) → List ι
  | [] => []
  | t :: ts => (P.input inject outside t).toList ++ inputs ((machine M body inject outside).next P t) ts

theorem inputs_append (P : Pool S κ σ ρ α) (ts us : List (Turn κ ε χ)) : inputs M body inject outside P (ts ++ us) =
      inputs M body inject outside P ts ++
        inputs M body inject outside ((machine M body inject outside).run P ts) us := by
  induction ts generalizing P with
  | nil => rfl
  | cons t ts ih => rw [cons_append, inputs, inputs, ih, append_assoc, Mealy.run_cons]

theorem next_step {call : κ} {s : σ} {k : ρ → Program σ ρ α} (h : P.calls[n]? = some (call, .call s k)) (c : χ) :
    (machine M body inject outside).next P (.step n c) =
        ⟨M.next P.shared (inject s c), P.calls.set n (call, k (M.out P.shared (inject s c)))⟩ ∧
      P.input inject outside (.step n c) = some (inject s c) := by
  constructor
  · simp only [Mealy.next, machine, h]
    rfl
  · simp only [input, h]

section

variable (P : Pool S κ σ ρ α)

/-- A step is idle, or it is one of a call that is under way. -/
theorem next_step_cases (n : Nat) (c : χ) :
    ((machine M body inject outside).next P (.step n c) = P ∧ P.input inject outside (.step n c) = none) ∨
      ∃ call s k, P.calls[n]? = some (call, .call s k) ∧ (machine M body inject outside).next P (.step n c) =
          ⟨M.next P.shared (inject s c), P.calls.set n (call, k (M.out P.shared (inject s c)))⟩ ∧
        P.input inject outside (.step n c) = some (inject s c) := by
  by_cases h : ∃ call s k, P.calls[n]? = some (call, .call s k)
  · obtain ⟨call, s, k, hcall⟩ := h
    exact .inr ⟨call, s, k, hcall, next_step M body inject outside hcall c⟩
  · push Not at h -- the condition of the last branch of the match is `h`
    refine .inl ⟨?_, ?_⟩
    · simp only [Mealy.next, machine]
    · simp only [input]

theorem next_shared (t : Turn κ ε χ) :
    ((machine M body inject outside).next P t).shared = M.run P.shared (P.input inject outside t).toList := by
  cases t with
  | start | outside => rfl
  | step n c =>
    rcases next_step_cases M body inject outside P n c with ⟨hnext, hinput⟩ | ⟨call, s, k, -, hnext, hinput⟩
    all_goals
      rw [hnext, hinput]
      rfl

/-- **The shared state takes the statements of all calls one after another.** -/
theorem run_shared (ts : List (Turn κ ε χ)) :
    ((machine M body inject outside).run P ts).shared = M.run P.shared (inputs M body inject outside P ts) := by
  induction ts generalizing P with
  | nil => rfl
  | cons t ts ih => rw [Mealy.run_cons, ih, inputs, Mealy.run_append, ← next_shared M body inject outside]

/-- A call keeps its label. -/
theorem next_labels (t : Turn κ ε χ) :
    ((machine M body inject outside).next P t).calls.map Prod.fst = P.calls.map Prod.fst ++
      [t].filterMap Turn.started := by
  cases t with
  | start => simp [Mealy.next, machine, Turn.started]
  | outside => exact (append_nil _).symm
  | step n c =>
    refine .trans ?_ (append_nil _).symm
    rcases next_step_cases M body inject outside P n c with ⟨hturn, -⟩ | ⟨call, s, k, hcall, hturn, -⟩
    · rw [hturn]
    · have hlabel : (P.calls.map Prod.fst)[n]? = some call := by simp [hcall]
      obtain ⟨hn, hget⟩ := List.getElem?_eq_some_iff.mp hlabel
      rw [hturn, map_set, ← hget, set_getElem_self]

theorem labels_cons (t : Turn κ ε χ) (ts : List (Turn κ ε χ)) :
    ((machine M body inject outside).next P t).calls.map Prod.fst ++ ts.filterMap Turn.started =
      P.calls.map Prod.fst ++ (t :: ts).filterMap Turn.started := by
  rw [next_labels, append_assoc, ← filterMap_append, singleton_append]

theorem run_labels (ts : List (Turn κ ε χ)) :
    ((machine M body inject outside).run P ts).calls.map Prod.fst = P.calls.map Prod.fst ++
      ts.filterMap Turn.started := by
  induction ts generalizing P with
  | nil => simp
  | cons t ts ih => rw [Mealy.run_cons, ih, labels_cons]

end

variable {M body inject outside} {μ : Type x} {D : Discipline μ σ ρ} {mode : κ → μ} {Q : μ → α → Prop}
  {modes : List (κ × μ)} {β : Type*} {calls : List (κ × Program σ ρ α)} {xs : List β} {a : β}

/-- The calls follow the discipline, each in the mode beside it. -/
def Follow (D : Discipline μ σ ρ) (Q : μ → α → Prop) (calls : List (κ × Program σ ρ α)) (modes : List (κ × μ)) :
    Prop :=
  List.Forall₂ (fun c m => c.1 = m.1 ∧ c.2.Follows D Q m.2) calls modes

theorem Follow.mode_of_call (h : Follow D Q calls modes) {call : κ} {p : Program σ ρ α}
    (hcall : calls[n]? = some (call, p)) : ∃ m, modes[n]? = some (call, m) ∧ p.Follows D Q m := by
  obtain ⟨hn, hget⟩ := List.getElem?_eq_some_iff.mp hcall
  have hn' : n < modes.length := h.length_eq ▸ hn
  have hrel := List.Forall₂.get h hn hn'
  simp only [get_eq_getElem, hget] at hrel
  refine ⟨modes[n].2, ?_, hrel.2⟩
  rw [List.getElem?_eq_getElem hn', hrel.1]

theorem Follow.labels (h : Follow D Q calls modes) : modes.map Prod.fst = calls.map Prod.fst := by
  induction h with
  | nil => rfl
  | cons hr _ ih => rw [map_cons, map_cons, ih, hr.1]

theorem forall₂_set {γ : Type*} {R : β → γ → Prop} {ys : List γ} (h : List.Forall₂ R xs ys) (n : Nat) {b : γ}
    (hab : R a b) : List.Forall₂ R (xs.set n a) (ys.set n b) := by
  induction h generalizing n with
  | nil => exact .nil
  | cons hr hrest ih =>
    cases n with
    | zero => exact .cons hab hrest
    | succ n => exact .cons hr (ih n)

theorem getElem?_set_cases {i : Nat} {x y z : β} (hn : xs[n]? = some x) (h : (xs.set n y)[i]? = some z) :
    i = n ∧ z = y ∨ i ≠ n ∧ xs[i]? = some z := by
  rw [List.getElem?_set] at h
  split at h
  next heq =>
    subst heq
    rw [if_pos (List.getElem?_eq_some_iff.mp hn).1] at h
    exact .inl ⟨rfl, (Option.some.inj h).symm⟩
  next hne => exact .inr ⟨.symm hne, h⟩

theorem countP_eraseIdx_add {p : β → Bool} (h : xs[n]? = some a) :
    (xs.eraseIdx n).countP p + (if p a then 1 else 0) = xs.countP p := by
  obtain ⟨hn, rfl⟩ := List.getElem?_eq_some_iff.mp h
  rw [← (getElem_cons_eraseIdx_perm hn).countP_eq, countP_cons]

theorem countP_set_add {p : β → Bool} (h : xs[n]? = some a) (b : β) :
    (xs.set n b).countP p + (if p a then 1 else 0) = xs.countP p + (if p b then 1 else 0) := by
  have hset : (xs.set n b)[n]? = some b := List.getElem?_set_self (List.getElem?_eq_some_iff.mp h).1
  rw [← countP_eraseIdx_add hset, ← countP_eraseIdx_add h, eraseIdx_set_eq]
  omega

variable (M body inject outside) in
/-- **The invariant rule of a pool** for runs whose inputs meet a condition, from a pool and the inputs before it. -/
theorem run_keeps {C : S → ι → Prop} {I : List ι → Pool S κ σ ρ α → Prop} (is : List ι) (ts : List (Turn κ ε χ))
    (hstart : ∀ is P call, Turn.start call ∈ ts → I is P → I is ⟨P.shared, P.calls ++ [(call, body call)]⟩)
    (hstep : ∀ is P n call s k c, P.calls[n]? = some (call, .call s k) → C P.shared (inject s c) →
      I is P → I (is ++ [inject s c])
        ⟨M.next P.shared (inject s c), P.calls.set n (call, k (M.out P.shared (inject s c)))⟩)
    (houtside : ∀ is P e, C P.shared (outside e) → I is P →
      I (is ++ [outside e]) ⟨M.next P.shared (outside e), P.calls⟩)
    (hsteps : M.Steps (fun s i _ => C s i) P.shared (inputs M body inject outside P ts)) (hI : I is P) :
    I (is ++ inputs M body inject outside P ts) ((machine M body inject outside).run P ts) := by
  induction ts generalizing P is with
  | nil => simpa [inputs] using hI
  | cons t ts ih =>
    rw [inputs, Mealy.steps_append, ← next_shared M body] at hsteps
    rw [Mealy.run_cons, inputs, ← append_assoc]
    refine ih _ (fun is P call hmem => hstart is P call (mem_cons_of_mem _ hmem)) hsteps.2 ?_
    cases t with
    | start call =>
      rw [show P.input inject outside (.start call) = none from rfl, Option.toList_none, append_nil]
      exact hstart is P call mem_cons_self hI
    | outside e => exact houtside is P e hsteps.1.1 hI
    | step n c =>
      rcases next_step_cases M body inject outside P n c with ⟨hturn, hinput⟩ | ⟨call, s, k, hcall, hturn, hinput⟩
      · rw [hturn, hinput]
        simpa using hI
      · rw [hinput] at hsteps
        rw [hturn, hinput]
        exact hstep is P n call s k c hcall hsteps.1.1 hI

variable (M body inject outside) in
/-- **One step of a call that follows a discipline.** Its mode allows the statement, and the reply changes it. -/
theorem Follow.next (h : Follow D Q P.calls modes) (n : Nat) (c : χ) :
    ((machine M body inject outside).next P (.step n c) = P ∧ P.input inject outside (.step n c) = none) ∨
      ∃ call m st, modes[n]? = some (call, m) ∧ D.allows m st ∧
        P.input inject outside (.step n c) = some (inject st c) ∧
        ((machine M body inject outside).next P (.step n c)).shared = M.next P.shared (inject st c) ∧
        Follow D Q ((machine M body inject outside).next P (.step n c)).calls
          (modes.set n (call, D.after m st (M.out P.shared (inject st c)))) := by
  refine (next_step_cases M body inject outside P n c).imp_right fun ⟨call, st, k, hcall, hturn, hinput⟩ => ?_
  -- the call of this turn has a mode, and its next statement is allowed there
  obtain ⟨m, hmode, hallows, hnext⟩ := h.mode_of_call hcall
  refine ⟨call, m, st, hmode, hallows, hinput, by rw [hturn], ?_⟩
  rw [hturn]
  exact forall₂_set h n ⟨rfl, hnext _⟩

/-- **The invariant rule for calls that follow a discipline**, in runs whose inputs meet a condition. -/
theorem follows_run {C : S → ι → Prop} {I : S → List (κ × μ) → Prop} (ts : List (Turn κ ε χ))
    (hstart : ∀ s modes call, Turn.start call ∈ ts → I s modes → I s (modes ++ [(call, mode call)]))
    (hstep : ∀ s modes n call m st c, modes[n]? = some (call, m) → D.allows m st → C s (inject st c) →
      I s modes → I (M.next s (inject st c)) (modes.set n (call, D.after m st (M.out s (inject st c)))))
    (houtside : ∀ s modes e, C s (outside e) → I s modes → I (M.next s (outside e)) modes)
    (hbody : ∀ call, Turn.start call ∈ ts → (body call).Follows D Q (mode call))
    (hfollow : Follow D Q P.calls modes)
    (hsteps : M.Steps (fun s i _ => C s i) P.shared (inputs M body inject outside P ts)) (hI : I P.shared modes) :
    ∃ modes', Follow D Q ((machine M body inject outside).run P ts).calls modes' ∧
      modes'.map Prod.fst = modes.map Prod.fst ++ ts.filterMap Turn.started ∧
      I ((machine M body inject outside).run P ts).shared modes' := by
  have hrun := run_keeps M body inject outside (I := fun _ P => ∃ modes', Follow D Q P.calls modes' ∧
    I P.shared modes') [] ts ?_ ?_ ?_
    hsteps ⟨modes, hfollow, hI⟩
  · obtain ⟨modes', hfollow', hI'⟩ := hrun
    exact ⟨modes', hfollow', by rw [hfollow'.labels, run_labels, hfollow.labels], hI'⟩
  · rintro - P call hmem ⟨modes, hfollow, hI⟩
    exact ⟨_, rel_append hfollow (.cons ⟨rfl, hbody call hmem⟩ .nil), hstart P.shared modes call hmem hI⟩
  · -- the call of this turn has a mode, and its next statement is allowed there
    rintro - P n call st k c hcall hC ⟨modes, hfollow, hI⟩
    obtain ⟨m, hmode, hallows, hnext⟩ := hfollow.mode_of_call hcall
    exact ⟨_, forall₂_set hfollow n ⟨rfl, hnext _⟩, hstep P.shared modes n call m st c hmode hallows hC hI⟩
  · rintro - P e hC ⟨modes, hfollow, hI⟩
    exact ⟨modes, hfollow, houtside P.shared modes e hC hI⟩

variable (M body inject outside) in
/-- The rule for invariants of the turns so far: the state is that of the run. -/
theorem follows_turns {I : List (Turn κ ε χ) → List (κ × μ) → Prop} (P : Pool S κ σ ρ α) (ts : List (Turn κ ε χ))
    (hbody : ∀ call, (body call).Follows D Q (mode call))
    (hstart : ∀ ts modes call, I ts modes → I (ts ++ [.start call]) (modes ++ [(call, mode call)]))
    (hidle : ∀ ts modes n c, (machine M body inject outside).run P (ts ++ [.step n c]) =
      (machine M body inject outside).run P ts → I ts modes → I (ts ++ [.step n c]) modes)
    (hstep : ∀ ts modes n call m st c s, modes[n]? = some (call, m) → D.allows m st →
      s = ((machine M body inject outside).run P ts).shared →
      ((machine M body inject outside).run P (ts ++ [.step n c])).shared = M.next s (inject st c) →
      I ts modes → I (ts ++ [.step n c]) (modes.set n (call, D.after m st (M.out s (inject st c)))))
    (houtside : ∀ ts modes e, I ts modes → I (ts ++ [.outside e]) modes) (hfollow : Follow D Q P.calls modes)
    (hI : I [] modes) :
    ∃ modes', Follow D Q ((machine M body inject outside).run P ts).calls modes' ∧ I ts modes' := by
  induction ts using reverseRecOn with
  | nil => exact ⟨modes, hfollow, hI⟩
  | append_singleton ts t ih =>
    obtain ⟨modes', hfollow', hI'⟩ := ih
    have hnext := (machine M body inject outside).run_concat P ts t
    cases t with
    | start call =>
      rw [hnext]
      exact ⟨_, rel_append hfollow' (.cons ⟨rfl, hbody call⟩ .nil), hstart ts modes' call hI'⟩
    | outside e =>
      rw [hnext]
      exact ⟨modes', hfollow', houtside ts modes' e hI'⟩
    | step n c =>
      rcases hfollow'.next M body inject outside n c with
        ⟨hturn, -⟩ | ⟨call, m, st, hmode, hallows, -, hshared, hfollow''⟩
      · have hsame := hnext.trans hturn
        rw [hsame]
        exact ⟨modes', hfollow', hidle ts modes' n c hsame hI'⟩
      · rw [← hnext] at hshared hfollow''
        exact ⟨_, hfollow'', hstep ts modes' n call m st c _ hmode hallows rfl hshared hI'⟩

/-- The calls perform what they may, each by its position. -/
def Lawful (A : Nat → σ → ρ → Prop) (Q : Nat → σ → Prop) (calls : List (κ × Program σ ρ α)) : Prop :=
  ∀ (n : Nat) x, calls[n]? = some x → x.2.Performs (A n) (Q n) fun _ => True

variable {A : Nat → σ → ρ → Prop} {Q : Nat → σ → Prop}

theorem Lawful.start (h : Lawful A Q calls) {call : κ}
    (hbody : (body call).Performs (A calls.length) (Q calls.length) fun _ => True) :
    Lawful A Q (calls ++ [(call, body call)]) := by
  intro n x hx
  rw [List.getElem?_append] at hx
  split at hx
  · exact h n x hx
  next hn =>
    obtain rfl : n = calls.length := by
      have hlt := (List.getElem?_eq_some_iff.mp hx).1
      rw [length_singleton] at hlt
      omega
    rw [Nat.sub_self] at hx
    cases hx
    exact hbody

theorem Lawful.step (h : Lawful A Q calls) {call : κ} {st : σ} {k : ρ → Program σ ρ α}
    (hcall : calls[n]? = some (call, .call st k)) {r : ρ} (hr : A n st r) : Lawful A Q (calls.set n (call, k r)) := by
  intro m x hx
  rcases getElem?_set_cases hcall hx with ⟨rfl, rfl⟩ | ⟨-, hx⟩
  · exact (h m _ hcall).2 r hr
  · exact h m x hx

/-- **The invariant rule for calls that are restricted in their statements.** Each call has the position
it starts at. -/
theorem performs_run {I : List ι → S → Prop} (is : List ι) (ts : List (Turn κ ε χ))
    (hstep : ∀ is s n st c, Turn.step n c ∈ ts → Q n st → I is s →
      A n st (M.out s (inject st c)) ∧ I (is ++ [inject st c]) (M.next s (inject st c)))
    (houtside : ∀ is s e, I is s → I (is ++ [outside e]) (M.next s (outside e)))
    (hbody : ∀ n call, (P.calls.map Prod.fst ++ ts.filterMap Turn.started)[n]? = some call →
      (body call).Performs (A n) (Q n) fun _ => True)
    (hlawful : Lawful A Q P.calls) (hI : I is P.shared) :
    Lawful A Q ((machine M body inject outside).run P ts).calls ∧
      I (is ++ inputs M body inject outside P ts) ((machine M body inject outside).run P ts).shared := by
  induction ts generalizing P is with
  | nil => simpa [inputs] using And.intro hlawful hI
  | cons t ts ih =>
    have hnext : Lawful A Q ((machine M body inject outside).next P t).calls ∧
        I (is ++ (P.input inject outside t).toList) ((machine M body inject outside).next P t).shared := by
      cases t with
      | start call => exact ⟨hlawful.start (hbody _ call (by simp [Turn.started])),
          by simpa [input, Mealy.next, machine] using hI⟩
      | outside e => exact ⟨hlawful, houtside is P.shared e hI⟩
      | step n c =>
        rcases next_step_cases M body inject outside P n c with ⟨hturn, hinput⟩ | ⟨call, s, k, hcall, hturn, hinput⟩
        · rw [hturn, hinput]
          exact ⟨hlawful, by simpa using hI⟩
        · obtain ⟨hr, hI⟩ := hstep is P.shared n s c mem_cons_self (hlawful n _ hcall).1 hI
          rw [hturn, hinput]
          exact ⟨hlawful.step hcall hr, hI⟩
    rw [Mealy.run_cons, inputs, ← append_assoc]
    exact ih _ (fun is s n st c hmem => hstep is s n st c (mem_cons_of_mem _ hmem))
      (fun n call h => hbody n call (labels_cons M body inject outside P t ts ▸ h)) hnext.1 hnext.2

/-- **Calls that need a reply which nobody gets.** What such calls return, if they are not among the oldest. -/
theorem unless_run {opens : σ → ρ → Prop} {post : κ → α → Prop} {old : Nat} (ts : List (Turn κ ε χ))
    (hbody : ∀ call, Turn.start call ∈ ts → (body call).Unless opens (post call))
    (hclosed : M.Steps (fun s i _ => ∀ st c, i = inject st c → ¬ opens st (M.out s i)) P.shared
      (inputs M body inject outside P ts))
    (hcalls : ∀ (n : Nat) x, old ≤ n → P.calls[n]? = some x → x.2.Unless opens (post x.1)) :
    ∀ (n : Nat) x, old ≤ n → ((machine M body inject outside).run P ts).calls[n]? = some x →
      x.2.Unless opens (post x.1) := by
  refine run_keeps M body inject outside (I := fun _ R => ∀ (n : Nat) x, old ≤ n →
    R.calls[n]? = some x → x.2.Unless opens (post x.1))
    [] ts ?_ ?_ (fun _ _ _ _ h => h) hclosed hcalls
  · intro _ R call hmem h n x hn hx
    rw [List.getElem?_append] at hx
    split at hx
    · exact h n x hn hx
    · obtain rfl := mem_singleton.mp (mem_of_getElem? hx)
      exact hbody call hmem
  · intro _ R n call st k c hcall hreply h m x hm hx
    rcases getElem?_set_cases hcall hx with ⟨rfl, rfl⟩ | ⟨-, hx⟩
    · exact (h m _ hm hcall _).resolve_left (hreply st c rfl)
    · exact h m x hm hx

end Pool
