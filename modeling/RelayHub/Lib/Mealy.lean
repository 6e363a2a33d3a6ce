import Mathlib.Data.List.Induction

/-! # Deterministic machines with outputs

A machine takes inputs one after another; each gives an output and a next state. A *run* is a list
of inputs. `run` is the state it ends in and `transitions` lists what happened on the way, so a
property of whole runs is a property of every input list.

`run_induction` is the invariant rule. -/

universe u v w

/-- One step of a run, with the states around it. -/
structure Transition (σ : Type u) (ι : Type v) (ο : Type w) where
  pre : σ
  input : ι
  output : ο
  post : σ

/-- A machine: what an input does in a state. -/
structure Mealy (σ : Type u) (ι : Type v) (ο : Type w) where
  exec : σ → ι → ο × σ

namespace Mealy

open List

variable {σ : Type u} {ι : Type v} {ο : Type w} (M : Mealy σ ι ο) {s : σ} {is : List ι}
  {P Q : σ → ι → List ι → Prop} {i : ι} {C : σ → ι → Prop} {I : σ → Prop}

/-- The state after one input. -/
def next (s : σ) (i : ι) : σ := (M.exec s i).2

/-- The output of one input. -/
def out (s : σ) (i : ι) : ο := (M.exec s i).1

/-- The state after a list of inputs. -/
def run (s : σ) (is : List ι) : σ := is.foldl M.next s

/-- The steps of a run, in order. -/
def transitions (s : σ) : List ι → List (Transition σ ι ο)
  | [] => []
  | i :: is => ⟨s, i, M.out s i, M.next s i⟩ :: transitions (M.next s i) is

/-- What a run shows: its inputs, each with its output. -/
def trace (s : σ) : List ι → List (ι × ο)
  | [] => []
  | i :: is => (i, M.out s i) :: trace (M.next s i) is

@[simp] theorem run_nil (s : σ) : M.run s [] = s := rfl

@[simp] theorem run_cons (s : σ) (i : ι) (is : List ι) : M.run s (i :: is) = M.run (M.next s i) is := rfl

theorem run_append (s : σ) (is js : List ι) : M.run s (is ++ js) = M.run (M.run s is) js :=
  foldl_append

@[simp] theorem run_concat (s : σ) (is : List ι) (i : ι) : M.run s (is ++ [i]) = M.next (M.run s is) i := by
  rw [run_append, run_cons, run_nil]

theorem transitions_append (s : σ) (is js : List ι) :
    M.transitions s (is ++ js) = M.transitions s is ++ M.transitions (M.run s is) js := by
  induction is generalizing s with
  | nil => rfl
  | cons i is ih => simp [transitions, ih]

@[simp] theorem transitions_concat (s : σ) (is : List ι) (i : ι) : M.transitions s (is ++ [i]) = M.transitions s is ++
      [⟨M.run s is, i, M.out (M.run s is) i, M.next (M.run s is) i⟩] := by
  rw [transitions_append]
  rfl

/-- A transition of a run splits it: the inputs before it lead to its pre-state. -/
theorem exists_split_of_mem_transitions {t : Transition σ ι ο} (h : t ∈ M.transitions s is) :
    ∃ as bs, is = as ++ t.input :: bs ∧ t.pre = M.run s as ∧
      t.output = M.out t.pre t.input ∧ t.post = M.next t.pre t.input := by
  induction is generalizing s with
  | nil => cases h
  | cons i is ih =>
    rcases mem_cons.mp h with rfl | h
    · exact ⟨[], is, rfl, rfl, rfl, rfl⟩
    · obtain ⟨as, bs, rfl, hpre, hout, hpost⟩ := ih h
      exact ⟨i :: as, bs, rfl, hpre, hout, hpost⟩

theorem mem_transitions_of_split (s : σ) (as : List ι) (i : ι) (bs : List ι) :
    ⟨M.run s as, i, M.out (M.run s as) i, M.next (M.run s as) i⟩ ∈ M.transitions s (as ++ i :: bs) := by
  rw [transitions_append]
  exact mem_append_right _ mem_cons_self

/-- Every step of the run meets `P`, a condition on the state before it, its input and the inputs
after it. -/
def Steps (P : σ → ι → List ι → Prop) : σ → List ι → Prop
  | _, [] => True
  | s, i :: is => P s i is ∧ Steps P (M.next s i) is

instance Steps.decidable (P : σ → ι → List ι → Prop) [∀ s i is, Decidable (P s i is)] :
    ∀ s is, Decidable (M.Steps P s is)
  | _, [] => isTrue trivial
  | s, i :: is => @instDecidableAnd _ _ _ (Steps.decidable P (M.next s i) is)

theorem Steps.of_split {M : Mealy σ ι ο} {as bs : List ι} (h : M.Steps P s (as ++ i :: bs)) : P (M.run s as) i bs := by
  induction as generalizing s with
  | nil => exact h.1
  | cons j as ih => exact ih h.2

theorem Steps.drop_cons {M : Mealy σ ι ο} {as bs : List ι} (h : M.Steps P s (as ++ i :: bs)) :
    M.Steps P (M.next (M.run s as) i) bs := by
  induction as generalizing s with
  | nil => exact h.2
  | cons j as ih => exact ih h.2

theorem steps_append {M : Mealy σ ι ο} {js : List ι} : M.Steps (fun s i _ => C s i) s (is ++ js) ↔
      M.Steps (fun s i _ => C s i) s is ∧ M.Steps (fun s i _ => C s i) (M.run s is) js := by
  induction is generalizing s with
  | nil => exact (and_iff_right trivial).symm
  | cons j is ih => exact (and_congr_right fun _ => ih).trans and_assoc.symm

/-- A condition that does not look ahead, for a run with one more step. -/
theorem steps_concat {M : Mealy σ ι ο} :
    M.Steps (fun s i _ => C s i) s (is ++ [i]) ↔ M.Steps (fun s i _ => C s i) s is ∧ C (M.run s is) i :=
  steps_append.trans (and_congr_right fun _ => and_iff_left trivial)

theorem steps_of_forall (h : ∀ s i, C s i) : M.Steps (fun s i _ => C s i) s is := by
  induction is generalizing s with
  | nil => trivial
  | cons i is ih => exact ⟨h s i, ih⟩

theorem Steps.imp_of_kept {M : Mealy σ ι ο} (h : M.Steps P s is) (h0 : I s)
    (hstep : ∀ s i is, I s → P s i is → I (M.next s i) ∧ Q s i is) : M.Steps Q s is := by
  induction is generalizing s with
  | nil => trivial
  | cons i is ih =>
    obtain ⟨hkept, hQ⟩ := hstep s i is h0 h.1
    exact ⟨hQ, ih h.2 hkept⟩

/-! ### Moments of a run -/

/-- The state after the first inputs. -/
def stateAt (s : σ) (is : List ι) (i : Nat) : σ := M.run s (is.take i)

theorem stateAt_concat {j : ι} {i : Nat} (hi : i ≤ is.length) : M.stateAt s (is ++ [j]) i = M.stateAt s is i := by
  rw [stateAt, take_append_of_le_length hi, stateAt]

theorem stateAt_length (s : σ) (is : List ι) : M.stateAt s is is.length = M.run s is := by
  rw [stateAt, take_length]

theorem stateAt_succ_length (s : σ) (is : List ι) (j : ι) :
    M.stateAt s (is ++ [j]) (is.length + 1) = M.next (M.run s is) j := by
  have hlength : (is ++ [j]).length = is.length + 1 := by simp
  rw [← hlength, stateAt_length, run_concat]

theorem getElem?_concat_cases {j x : ι} {i : Nat} (h : (is ++ [j])[i]? = some x) :
    i < is.length ∧ is[i]? = some x ∨ i = is.length ∧ x = j := by
  rw [List.getElem?_append] at h
  split at h
  next hi => exact .inl ⟨hi, h⟩
  next hi =>
  have hzero : i - is.length = 0 := by
    have hlt := (List.getElem?_eq_some_iff.mp h).1
    simpa using hlt
  rw [hzero] at h
  refine .inr ⟨by omega, ?_⟩
  simpa using h.symm

/-- What does not hold from the start has come to hold at an input, and has held since. -/
theorem exists_since {P : List ι → Prop} (h0 : ¬ P []) (h : P is) :
    ∃ before i after, is = before ++ i :: after ∧ ¬ P before ∧ ∀ mid, mid <+: after → P (before ++ i :: mid) := by
  induction is using reverseRecOn with
  | nil => exact absurd h h0
  | append_singleton is i ih =>
    by_cases hbefore : P is
    · obtain ⟨before, j, after, rfl, hnot, hsince⟩ := ih hbefore
      refine ⟨before, j, after ++ [i], by simp, hnot, fun mid hmid => ?_⟩
      -- a prefix ends before the last input or is the whole rest
      rcases prefix_concat_iff.mp hmid with rfl | hmid
      · simpa using h
      · exact hsince mid hmid
    · refine ⟨is, i, [], rfl, hbefore, fun mid hmid => ?_⟩
      rwa [prefix_nil.mp hmid]

/-- **The invariant rule.** What holds at the start and is kept by every step holds after every
run. -/
theorem run_induction {P : σ → Prop} (h0 : P s) (hstep : ∀ s i, P s → P (M.next s i)) (is : List ι) :
    P (M.run s is) := by
  induction is generalizing s with
  | nil => exact h0
  | cons i is ih => exact ih (hstep s i h0)

/-- The invariant rule for runs whose steps meet a condition. -/
theorem Steps.invariant {M : Mealy σ ι ο} (h : M.Steps (fun s i _ => C s i) s is) (h0 : I s)
    (hstep : ∀ s i, I s → C s i → I (M.next s i)) (k : Nat) : I (M.stateAt s is k) := by
  induction is generalizing s k with
  | nil => rwa [stateAt, take_nil]
  | cons i is ih =>
    cases k with
    | zero => exact h0
    | succ k => exact ih h.2 (hstep s i h0 h.1) k

/-- **A law that some steps break.** If a step breaks the law exactly when it misses a condition, the law holds in every
state of the runs whose steps all meet it, and in no others. -/
theorem law_iff_steps {M : Mealy σ ι ο} {L : σ → Prop} (h0 : I s) (hlaw : ∀ s, I s → L s)
    (hstep : ∀ s i, I s → C s i → I (M.next s i)) (hbreak : ∀ s i, I s → ¬ C s i → ¬ L (M.next s i)) :
    (∀ k, L (M.stateAt s is k)) ↔ M.Steps (fun s i _ => C s i) s is := by
  induction is generalizing s with
  | nil =>
    refine iff_of_true (fun k => ?_) trivial
    rw [stateAt, take_nil]
    exact hlaw s h0
  | cons i is ih =>
    by_cases hC : C s i
    · rw [Steps, ← ih (hstep s i h0 hC), and_iff_right hC]
      refine ⟨fun h k => h (k + 1), fun h k => ?_⟩
      cases k with
      | zero => exact hlaw s h0
      | succ k => exact h k
    · exact iff_of_false (fun h => hbreak s i h0 hC (h 1)) fun h => hC h.1

end Mealy

/-! ## Labels that are used once -/

section Labels

variable {α β : Type*} {f : α → List β}

/-- If no label is used twice in a list, two elements of it that share a label do not stand one
behind the other. -/
theorem not_shared_of_nodup_flatMap {a b c : List α} {x y : α} {r : β}
    (hnd : ((a ++ x :: (b ++ y :: c)).flatMap f).Nodup) (hx : r ∈ f x) : r ∉ f y := by
  intro hy
  rw [List.flatMap_append, List.flatMap_cons] at hnd
  have hinner := (List.nodup_append.mp (List.nodup_append.mp hnd).2.1).2.2
  refine hinner r hx r ?_ rfl
  rw [List.flatMap_append]
  exact List.mem_append_right _ (List.mem_append_left _ hy)

/-- **A label that is used once names its position.** -/
theorem split_unique_of_nodup_flatMap {a a' b b' : List α} {x x' : α} {r : β}
    (hnd : ((a ++ x :: b).flatMap f).Nodup) (heq : a ++ x :: b = a' ++ x' :: b')
    (hx : r ∈ f x) (hx' : r ∈ f x') : a = a' ∧ x = x' ∧ b = b' := by
  rcases List.append_eq_append_iff.mp heq with ⟨c, rfl, hc⟩ | ⟨c, rfl, hc⟩
  · cases c with
    | nil =>
      obtain ⟨rfl, rfl⟩ := List.cons.inj hc
      simp
    | cons =>
      obtain ⟨rfl, rfl⟩ := List.cons.inj hc
      exact absurd hx' (not_shared_of_nodup_flatMap hnd hx)
  · cases c with
    | nil =>
      obtain ⟨rfl, rfl⟩ := List.cons.inj hc
      simp
    | cons =>
      obtain ⟨rfl, rfl⟩ := List.cons.inj hc
      rw [heq] at hnd
      exact absurd hx (not_shared_of_nodup_flatMap hnd hx')

end Labels
