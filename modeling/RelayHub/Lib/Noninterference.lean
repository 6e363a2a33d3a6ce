import RelayHub.Lib.Program

/-! # Runs that differ in one owner's turns

Calls and events have owners, and the calls of each owner stand in a row of their own, so that leaving out
the turns of one owner moves no call of another. An observer has a *view* of the shared state. A statement is
*seen* if the view before it decides its reply and the view after it, and *unseen* if it does not change the
view.

`view_run` is the rule: if every call of the other owners performs seen statements only or unseen ones only,
and no turn of the hidden owner changes the view, then two runs that differ in the turns of the hidden owner
end in the same view. The turns of the hidden owner are purged from both runs, and a run and its purged run
stay related step by step. -/

universe u v w

/-! ## Pools with owners -/

/-- The shared state and the calls of each owner. -/
structure Pools (S ω κ : Type*) (σ : Type u) (ρ : Type v) (α : Type w) where
  shared : S
  calls : ω → List (κ × Program σ ρ α)

/-- A turn: a call starts, a call of an owner performs its next statement, or something else happens. -/
inductive OwnedTurn (ω κ ε χ : Type*) where
  | start (call : κ)
  | step (owner : ω) (call : Nat) (choice : χ)
  | outside (event : ε)

namespace Pools

open List Function

variable {S ω κ ι ε χ W : Type*} {σ : Type u} {ρ : Type v} {α : Type w} [DecidableEq ω]
variable (M : Mealy S ι ρ) (body : κ → Program σ ρ α) (inject : σ → χ → ι) (outside : ε → ι)
variable (owner : κ → ω) (eventOwner : ε → ω)

/-- Whose turn it is. -/
def turnOwner : OwnedTurn ω κ ε χ → ω
  | .start call => owner call
  | .step o _ _ => o
  | .outside e => eventOwner e

/-- The machine of the pools. -/
def machine : Mealy (Pools S ω κ σ ρ α) (OwnedTurn ω κ ε χ) (Option ρ) where
  exec P
    | .start call =>
      (none, { P with calls := update P.calls (owner call) (P.calls (owner call) ++ [(call, body call)]) })
    | .step o n c =>
      match (P.calls o)[n]? with
      | some (call, .call s k) =>
        let r := M.exec P.shared (inject s c)
        (some r.1, { shared := r.2, calls := update P.calls o ((P.calls o).set n (call, k r.1)) })
      | _ => (none, P)
    | .outside e =>
      let r := M.exec P.shared (outside e)
      (some r.1, { P with shared := r.2 })

/-- The statement that a call of an owner performs next. -/
def pending (P : Pools S ω κ σ ρ α) (o : ω) (n : Nat) : Option σ :=
  match (P.calls o)[n]? with
  | some (_, .call s _) => some s
  | _ => none

/-! ## Views -/

variable (view : S → W)

/-- The view decides the reply of the statement and the view after it. -/
def Seen (s : σ) : Prop :=
  ∀ (c : χ) (S₁ S₂ : S), view S₁ = view S₂ →
    M.out S₁ (inject s c) = M.out S₂ (inject s c) ∧ view (M.next S₁ (inject s c)) = view (M.next S₂ (inject s c))

/-- The statement does not change the view. -/
def Unseen (s : σ) : Prop := ∀ (c : χ) (S : S), view (M.next S (inject s c)) = view S

/-- Two calls that the observer cannot tell apart. -/
inductive Alike : Program σ ρ α → Program σ ρ α → Prop where
  | same {p : Program σ ρ α} (h : p.Performs (M.Answers inject) (Seen M inject view) fun _ => True) : Alike p p
  | unseen {p q : Program σ ρ α} (hp : p.Performs (M.Answers inject) (Unseen M inject view) fun _ => True)
      (hq : q.Performs (M.Answers inject) (Unseen M inject view) fun _ => True) : Alike p q

/-- The observer cannot tell the pools apart, whatever the calls of the hidden owner are. -/
def Matched (hidden : ω) (P₁ P₂ : Pools S ω κ σ ρ α) : Prop :=
  view P₁.shared = view P₂.shared ∧
    ∀ o, o ≠ hidden → List.Forall₂ (fun x y => x.1 = y.1 ∧ Alike M inject view x.2 y.2) (P₁.calls o) (P₂.calls o)

variable {M body inject outside owner eventOwner view} {hidden : ω} {P P₁ P₂ : Pools S ω κ σ ρ α}

omit [DecidableEq ω] in
theorem Alike.step {s₁ s₂ : σ} {k₁ k₂ : ρ → Program σ ρ α} (h : Alike M inject view (.call s₁ k₁) (.call s₂ k₂))
    (c : χ) {S₁ S₂ : S} (hview : view S₁ = view S₂) :
    view (M.next S₁ (inject s₁ c)) = view (M.next S₂ (inject s₂ c)) ∧
      Alike M inject view (k₁ (M.out S₁ (inject s₁ c))) (k₂ (M.out S₂ (inject s₂ c))) := by
  cases h with
  | same h =>
    obtain ⟨hseen, hrest⟩ := h
    obtain ⟨hout, hnext⟩ := hseen c S₁ S₂ hview
    rw [hout]
    exact ⟨hnext, .same (hrest _ ⟨S₂, c, rfl⟩)⟩
  | unseen hp hq => exact ⟨by rw [hp.1, hq.1, hview], .unseen (hp.2 _ ⟨S₁, c, rfl⟩) (hq.2 _ ⟨S₂, c, rfl⟩)⟩

omit [DecidableEq ω] in
/-- A call alone in its pool, with nothing left to do in the other. -/
theorem Alike.step_left {s : σ} {k : ρ → Program σ ρ α} {a : α} (h : Alike M inject view (.call s k) (.done a))
    (c : χ) (S₁ : S) :
    view (M.next S₁ (inject s c)) = view S₁ ∧ Alike M inject view (k (M.out S₁ (inject s c))) (.done a) := by
  cases h with
  | unseen hp hq => exact ⟨hp.1 c S₁, .unseen (hp.2 _ ⟨S₁, c, rfl⟩) hq⟩

omit [DecidableEq ω] in
theorem Alike.symm {p q : Program σ ρ α} (h : Alike M inject view p q) : Alike M inject view q p := by
  cases h with
  | same h => exact .same h
  | unseen hp hq => exact .unseen hq hp

theorem forall₂_getElem? {β γ : Type*} {R : β → γ → Prop} {xs : List β} {ys : List γ} (h : List.Forall₂ R xs ys)
    (n : Nat) : (xs[n]? = none ∧ ys[n]? = none) ∨ ∃ x y, xs[n]? = some x ∧ ys[n]? = some y ∧ R x y := by
  induction h generalizing n with
  | nil => exact .inl ⟨rfl, rfl⟩
  | cons hr _ ih =>
    cases n with
    | zero => exact .inr ⟨_, _, rfl, rfl, hr⟩
    | succ n => exact ih n

/-! ## Turns -/

section Turns

variable {o : ω} {n : Nat} {c : χ} {k : ρ → Program σ ρ α}

theorem next_step {call : κ} {s : σ} (h : (P.calls o)[n]? = some (call, .call s k)) :
    (machine M body inject outside owner).next P (.step o n c) =
      { shared := M.next P.shared (inject s c)
        calls := update P.calls o ((P.calls o).set n (call, k (M.out P.shared (inject s c)))) } := by
  simp only [Mealy.next, machine, h]
  rfl

theorem next_step_of_pending (h : P.pending o n = none) :
    (machine M body inject outside owner).next P (.step o n c) = P := by
  unfold pending at h
  simp only [Mealy.next, machine]
  cases hget : (P.calls o)[n]? with
  | none => rfl
  | some x =>
    obtain ⟨call, p⟩ := x
    cases p with
    | done => rfl
    | call => simp [hget] at h

variable (h : Matched M inject view hidden P₁ P₂)

include h

/-- The calls of one owner change; those of the others stay in step. -/
theorem Matched.update {S₁ S₂ : S} {xs ys : List (κ × Program σ ρ α)}
    (hview : view S₁ = view S₂) (hcalls : List.Forall₂ (fun x y => x.1 = y.1 ∧ Alike M inject view x.2 y.2) xs ys) :
    Matched M inject view hidden ⟨S₁, update P₁.calls o xs⟩ ⟨S₂, update P₂.calls o ys⟩ := by
  refine ⟨hview, fun o' ho' => ?_⟩
  by_cases heq : o' = o
  · subst heq
    simpa using hcalls
  · simpa [Function.update_of_ne heq] using h.2 o' ho'

theorem Matched.update_left {S₁ : S} {xs : List (κ × Program σ ρ α)} (hview : view S₁ = view P₂.shared)
    (hcalls : List.Forall₂ (fun x y => x.1 = y.1 ∧ Alike M inject view x.2 y.2) xs (P₂.calls o)) :
    Matched M inject view hidden ⟨S₁, Function.update P₁.calls o xs⟩ P₂ := by
  have hupdate := h.update (o := o) hview hcalls
  rwa [Function.update_eq_self] at hupdate

omit [DecidableEq ω] in
theorem Matched.symm : Matched M inject view hidden P₂ P₁ :=
  ⟨h.1.symm, fun o ho => (h.2 o ho).flip.imp fun _ _ hr => ⟨hr.1.symm, hr.2.symm⟩⟩

theorem Matched.step_left (ho : o ≠ hidden) {call : κ} {s : σ} {a : α}
    (h₁ : (P₁.calls o)[n]? = some (call, .call s k)) (h₂ : (P₂.calls o)[n]? = some (call, .done a))
    (halike : Alike M inject view (.call s k) (.done a)) :
    Matched M inject view hidden ((machine M body inject outside owner).next P₁ (.step o n c)) P₂ := by
  obtain ⟨hview, hrest⟩ := halike.step_left c P₁.shared
  rw [next_step h₁]
  refine h.update_left (hview.trans h.1) ?_
  have hset := Pool.forall₂_set (h.2 o ho) n (a := (call, k (M.out P₁.shared (inject s c))))
    (b := (call, .done a)) ⟨rfl, hrest⟩
  obtain ⟨hn, hget⟩ := List.getElem?_eq_some_iff.mp h₂
  rwa [← hget, set_getElem_self] at hset

theorem Matched.step (ho : o ≠ hidden) :
    Matched M inject view hidden ((machine M body inject outside owner).next P₁ (.step o n c))
      ((machine M body inject outside owner).next P₂ (.step o n c)) := by
  have hdone : ∀ {Q : Pools S ω κ σ ρ α} {call : κ} {a : α}, (Q.calls o)[n]? = some (call, .done a) →
      Q.pending o n = none := fun hget => by simp [pending, hget]
  rcases forall₂_getElem? (h.2 o ho) n with ⟨h₁, h₂⟩ | ⟨⟨call, p⟩, ⟨call', q⟩, h₁, h₂, hlabel, halike⟩
  · rw [next_step_of_pending (by simp [pending, h₁]), next_step_of_pending (by simp [pending, h₂])]
    exact h
  obtain rfl : call = call' := hlabel
  cases p with
  | done =>
    rw [next_step_of_pending (hdone h₁)]
    cases q with
    | done =>
      rw [next_step_of_pending (hdone h₂)]
      exact h
    | call => exact (h.symm.step_left ho h₂ h₁ halike.symm).symm
  | call =>
    cases q with
    | done =>
      rw [next_step_of_pending (hdone h₂)]
      exact h.step_left ho h₁ h₂ halike
    | call =>
      obtain ⟨hview, hrest⟩ := halike.step c h.1
      rw [next_step h₁, next_step h₂]
      exact h.update hview (Pool.forall₂_set (h.2 o ho) n ⟨rfl, hrest⟩)

end Turns

/-! ## What calls still have to do -/

section Invariant

variable {Q : κ → σ → Prop}

/-- The calls stand with their owners and perform what they may. -/
def Lawful (M : Mealy S ι ρ) (inject : σ → χ → ι) (owner : κ → ω) (Q : κ → σ → Prop) (P : Pools S ω κ σ ρ α) : Prop :=
  ∀ o, ∀ x ∈ P.calls o, owner x.1 = o ∧ x.2.Performs (M.Answers inject) (Q x.1) fun _ => True

theorem Lawful.update (h : Lawful M inject owner Q P) {S' : S} {o : ω} {xs : List (κ × Program σ ρ α)}
    (hxs : ∀ x ∈ xs, owner x.1 = o ∧ x.2.Performs (M.Answers inject) (Q x.1) fun _ => True) :
    Lawful M inject owner Q ⟨S', update P.calls o xs⟩ := by
  intro o' x hx
  dsimp only at hx
  by_cases ho : o' = o
  · subst ho
    rw [update_self] at hx
    exact hxs x hx
  · rw [update_of_ne ho] at hx
    exact h o' x hx

theorem Lawful.next (hbody : ∀ call, (body call).Performs (M.Answers inject) (Q call) fun _ => True)
    (h : Lawful M inject owner Q P) (t : OwnedTurn ω κ ε χ) :
    Lawful M inject owner Q ((machine M body inject outside owner).next P t) := by
  cases t with
  | outside => exact h
  | start call =>
    exact h.update (forall_mem_append.mpr ⟨h _, forall_mem_singleton.mpr ⟨rfl, hbody call⟩⟩)
  | step o n c =>
    cases hget : (P.calls o)[n]? with
    | none =>
      rw [next_step_of_pending (by simp [pending, hget])]
      exact h
    | some y =>
      obtain ⟨call, p⟩ := y
      cases p with
      | done =>
        rw [next_step_of_pending (by simp [pending, hget])]
        exact h
      | call s k =>
        obtain ⟨howner, hperforms⟩ := h o (call, .call s k) (mem_of_getElem? hget)
        rw [next_step hget]
        refine h.update fun x hx => ?_
        rcases mem_or_eq_of_mem_set hx with hx | rfl
        · exact h _ x hx
        · exact ⟨howner, hperforms.2 _ ⟨_, c, rfl⟩⟩

omit [DecidableEq ω] in
theorem Lawful.of_pending (h : Lawful M inject owner Q P) {o : ω} {n : Nat} {s : σ} (hs : P.pending o n = some s) :
    ∃ call, owner call = o ∧ Q call s := by
  unfold pending at hs
  split at hs
  next call s' k hget =>
    cases hs
    obtain ⟨howner, hperforms⟩ := h o _ (mem_of_getElem? hget)
    exact ⟨call, howner, hperforms.1⟩
  · cases hs

theorem next_step_shared {o : ω} {n : Nat} {c : χ} {s : σ} (hs : P.pending o n = some s) :
    ((machine M body inject outside owner).next P (.step o n c)).shared = M.next P.shared (inject s c) := by
  unfold pending at hs
  split at hs
  next hget =>
    cases hs
    rw [next_step hget]
  · cases hs

end Invariant

/-! ## Runs -/

section Runs

variable {t : OwnedTurn ω κ ε χ} {ts ts₁ ts₂ : List (OwnedTurn ω κ ε χ)}

/-- What the observer needs to know of the calls and events of the other owners. -/
structure Open (M : Mealy S ι ρ) (body : κ → Program σ ρ α) (inject : σ → χ → ι) (outside : ε → ι)
    (owner : κ → ω) (eventOwner : ε → ω) (view : S → W) (hidden : ω) : Prop where
  calls : ∀ call, owner call ≠ hidden →
    (body call).Performs (M.Answers inject) (Seen M inject view) (fun _ => True) ∨
      (body call).Performs (M.Answers inject) (Unseen M inject view) fun _ => True
  events : ∀ e, eventOwner e ≠ hidden → ∀ S₁ S₂, view S₁ = view S₂ →
    view (M.next S₁ (outside e)) = view (M.next S₂ (outside e))

variable (hopen : Open M body inject outside owner eventOwner view hidden)

include hopen

theorem Matched.turn (h : Matched M inject view hidden P₁ P₂) (ht : turnOwner owner eventOwner t ≠ hidden) :
    Matched M inject view hidden ((machine M body inject outside owner).next P₁ t)
      ((machine M body inject outside owner).next P₂ t) := by
  cases t with
  | step => exact h.step ht
  | outside e => exact ⟨hopen.events e ht _ _ h.1, h.2⟩
  | start call =>
    have halike : Alike M inject view (body call) (body call) := by
      rcases hopen.calls call ht with hseen | hunseen
      · exact .same hseen
      · exact .unseen hunseen hunseen
    exact h.update h.1 (rel_append (h.2 _ ht) (.cons ⟨rfl, halike⟩ .nil))

/-- The turn is the hidden owner's, and the view stays. -/
def Quiet (M : Mealy S ι ρ) (body : κ → Program σ ρ α) (inject : σ → χ → ι) (outside : ε → ι)
    (owner : κ → ω) (eventOwner : ε → ω) (view : S → W) (hidden : ω) (P : Pools S ω κ σ ρ α)
    (t : OwnedTurn ω κ ε χ) : Prop :=
  turnOwner owner eventOwner t = hidden →
    view ((machine M body inject outside owner).next P t).shared = view P.shared

omit hopen in
theorem next_calls_of_ne {o : ω} (ho : o ≠ turnOwner owner eventOwner t) :
    ((machine M body inject outside owner).next P t).calls o = P.calls o := by
  cases t with
  | start => exact update_of_ne ho _ _
  | outside => rfl
  | step =>
    simp only [Mealy.next, machine]
    split
    · exact update_of_ne ho _ _
    · rfl

/-- **A run and its purged run stay matched.** -/
theorem Matched.purge (h : Matched M inject view hidden P₁ P₂)
    (hquiet : (machine M body inject outside owner).Steps
      (fun P t _ => Quiet M body inject outside owner eventOwner view hidden P t) P₁ ts) :
    Matched M inject view hidden ((machine M body inject outside owner).run P₁ ts)
      ((machine M body inject outside owner).run P₂ (ts.filter fun t => turnOwner owner eventOwner t ≠ hidden)) := by
  induction ts generalizing P₁ P₂ with
  | nil => exact h
  | cons t ts ih =>
    rw [filter_cons]
    by_cases ht : turnOwner owner eventOwner t = hidden
    · rw [if_neg (by simpa using ht)]
      refine ih ⟨(hquiet.1 ht).trans h.1, fun o ho => ?_⟩ hquiet.2
      rw [next_calls_of_ne (show o ≠ turnOwner owner eventOwner t from ht ▸ ho)]
      exact h.2 o ho
    · rw [if_pos (by simpa using ht)]
      exact ih (h.turn hopen ht) hquiet.2

/-- **Noninterference.** Two runs that differ in the turns of the hidden owner end in the same view. -/
theorem view_run (S₀ : S) (hquiet₁ : (machine M body inject outside owner).Steps
      (fun P t _ => Quiet M body inject outside owner eventOwner view hidden P t) ⟨S₀, fun _ => []⟩ ts₁)
    (hquiet₂ : (machine M body inject outside owner).Steps
      (fun P t _ => Quiet M body inject outside owner eventOwner view hidden P t) ⟨S₀, fun _ => []⟩ ts₂)
    (hsame : (ts₁.filter fun t => turnOwner owner eventOwner t ≠ hidden) =
      ts₂.filter fun t => turnOwner owner eventOwner t ≠ hidden) :
    view ((machine M body inject outside owner).run ⟨S₀, fun _ => []⟩ ts₁).shared =
      view ((machine M body inject outside owner).run ⟨S₀, fun _ => []⟩ ts₂).shared := by
  have hstart : Matched M inject view hidden (⟨S₀, fun _ => []⟩ : Pools S ω κ σ ρ α) ⟨S₀, fun _ => []⟩ :=
    ⟨rfl, fun _ _ => .nil⟩
  have h₁ := (hstart.purge hopen hquiet₁).1
  have h₂ := (hstart.purge hopen hquiet₂).1
  rw [h₁, h₂, hsame]

end Runs

end Pools
