import RelayHub.Lib.Program

/-! # Calls that write once

A call reads, computes and then writes, with one statement at most that changes anything. The `discipline` keeps
what a call has seen and what it has written. `exists_history` says what that means for a run: the value that a
call has seen was the reply of an earlier turn of it, and no turn of it changes anything but the one in which it
writes. What has happened between the two turns is up to the other calls. -/

universe u v w

namespace ReadWrite

open List Mealy

variable {S κ χ ν : Type*} {σ : Type u} {ρ : Type v} {α : Type w}

/-- Which statements write, which value the reply of a statement shows, and what a call may ask and, after what it
has seen, write. -/
structure Contract (κ : Type*) (σ : Type u) (ρ : Type v) (ν : Type*) where
  writes : σ → Bool
  shows : σ → ρ → Option ν
  asks : κ → σ → Prop
  permits : κ → Option ν → σ → Prop

/-- What a call has done: it has seen a value last, or it has written then. -/
inductive Phase (σ : Type u) (ρ : Type v) (ν : Type*) where
  | unwritten (seen : Option ν)
  | wrote (seen : Option ν) (statement : σ) (reply : ρ)

/-- A call may write once. -/
def Contract.discipline (K : Contract κ σ ρ ν) : Discipline (κ × Phase σ ρ ν) σ ρ where
  allows m st :=
    if K.writes st then ∃ seen, m.2 = .unwritten seen ∧ K.permits m.1 seen st else K.asks m.1 st
  after m st r :=
    match m.2 with
    | .wrote .. => m
    | .unwritten seen => (m.1, if K.writes st then .wrote seen st r else .unwritten ((K.shows st r).or seen))

/-- A statement that does not write and shows nothing leaves the phase. -/
theorem Contract.after_eq_self {K : Contract κ σ ρ ν} {st : σ} {r : ρ} (hwrites : K.writes st = false)
    (hshows : K.shows st r = none) (m : κ × Phase σ ρ ν) : K.discipline.after m st r = m := by
  obtain ⟨call, phase⟩ := m
  cases phase <;> simp [Contract.discipline, hwrites, hshows]

section History

variable (M : Mealy S (σ × χ) ρ) (body : κ → Program σ ρ α)

/-- Calls on a machine, and nothing else. -/
abbrev calls : Mealy (Pool S κ σ ρ α) (Turn κ Empty χ) (Option ρ) := Pool.machine M body Prod.mk Empty.elim

/-- The state after the first turns of a run. -/
def stateAt (s : S) (ts : List (Turn κ Empty χ)) (i : Nat) : S := ((calls M body).stateAt ⟨s, []⟩ ts i).shared

/-- The turn changes nothing. -/
def Quiet (s : S) (ts : List (Turn κ Empty χ)) (i : Nat) : Prop := stateAt M body s ts (i + 1) = stateAt M body s ts i

/-- A value that the call has seen in a turn before another. -/
def Saw (K : Contract κ σ ρ ν) (s : S) (ts : List (Turn κ Empty χ)) (n i : Nat) (call : κ) (v : ν) : Prop :=
  ∃ j c st, j < i ∧ ts[j]? = some (.step n c) ∧ K.asks call st ∧
    K.shows st (M.out (stateAt M body s ts j) (st, c)) = some v

/-- The turn in which a call writes. -/
structure Writes (K : Contract κ σ ρ ν) (s : S) (ts : List (Turn κ Empty χ)) (n i : Nat) (call : κ) (seen : Option ν)
    (st : σ) (r : ρ) : Prop where
  turn : ∃ c, ts[i]? = some (.step n c) ∧ stateAt M body s ts (i + 1) = M.next (stateAt M body s ts i) (st, c) ∧
    r = M.out (stateAt M body s ts i) (st, c)
  permitted : K.permits call seen st
  saw : ∀ v ∈ seen, Saw M body K s ts n i call v
  others : ∀ j c, ts[j]? = some (.step n c) → j ≠ i → Quiet M body s ts j

/-- What the call has done so far. -/
def Past (K : Contract κ σ ρ ν) (s : S) (ts : List (Turn κ Empty χ)) (n : Nat) (call : κ) : Phase σ ρ ν → Prop
  | .unwritten seen => (∀ i c, ts[i]? = some (.step n c) → Quiet M body s ts i) ∧
      ∀ v ∈ seen, Saw M body K s ts n ts.length call v
  | .wrote seen st r => ∃ i, Writes M body K s ts n i call seen st r

/-- The calls of a run, and what its turns were. -/
structure History (K : Contract κ σ ρ ν) (s : S) (ts : List (Turn κ Empty χ))
    (modes : List (κ × (κ × Phase σ ρ ν))) : Prop where
  past : ∀ (n : Nat) call m, modes[n]? = some (call, m) → m.1 = call ∧ Past M body K s ts n call m.2
  later : ∀ n i c, modes.length ≤ n → ts[i]? = some (.step n c) → Quiet M body s ts i

variable {M body} {K : Contract κ σ ρ ν} {s : S} {ts : List (Turn κ Empty χ)} {t : Turn κ Empty χ} {n i : Nat}
  {call : κ}

theorem stateAt_concat (hi : i ≤ ts.length) : stateAt M body s (ts ++ [t]) i = stateAt M body s ts i := by
  rw [stateAt, Mealy.stateAt_concat _ hi, stateAt]

theorem quiet_concat (hi : i < ts.length) : Quiet M body s (ts ++ [t]) i ↔ Quiet M body s ts i := by
  rw [Quiet, Quiet, stateAt_concat hi, stateAt_concat (Nat.le_of_lt hi)]

theorem Saw.concat {v : ν} (h : Saw M body K s ts n i call v) : Saw M body K s (ts ++ [t]) n i call v := by
  obtain ⟨j, c, st, hj, hturn, hasks, hshows⟩ := h
  have hlt : j < ts.length := (List.getElem?_eq_some_iff.mp hturn).1
  refine ⟨j, c, st, hj, ?_, hasks, ?_⟩
  · rw [List.getElem?_append_left hlt, hturn]
  · rwa [stateAt_concat (Nat.le_of_lt hlt)]

theorem Saw.mono {v : ν} {k : Nat} (h : Saw M body K s ts n i call v) (hik : i ≤ k) : Saw M body K s ts n k call v := by
  obtain ⟨j, c, st, hj, hrest⟩ := h
  exact ⟨j, c, st, by omega, hrest⟩

theorem Writes.concat {seen : Option ν} {st : σ} {r : ρ} (h : Writes M body K s ts n i call seen st r)
    (hlast : ∀ c, t = .step n c → Quiet M body s (ts ++ [t]) ts.length) :
    Writes M body K s (ts ++ [t]) n i call seen st r := by
  obtain ⟨⟨c, hturn, hnext, hreply⟩, hpermitted, hsaw, hothers⟩ := h
  have hlt : i < ts.length := (List.getElem?_eq_some_iff.mp hturn).1
  refine ⟨⟨c, ?_, ?_, ?_⟩, hpermitted, fun v hv => (hsaw v hv).concat, fun j c' hj hne => ?_⟩
  · rw [List.getElem?_append_left hlt, hturn]
  · rwa [stateAt_concat hlt, stateAt_concat (Nat.le_of_lt hlt)]
  · rwa [stateAt_concat (Nat.le_of_lt hlt)]
  · rcases getElem?_concat_cases hj with ⟨hltj, hj⟩ | ⟨rfl, heq⟩
    · exact (quiet_concat hltj).mpr (hothers j c' hj hne)
    · exact hlast c' heq.symm

theorem Past.concat {p : Phase σ ρ ν} (h : Past M body K s ts n call p)
    (hlast : ∀ c, t = .step n c → Quiet M body s (ts ++ [t]) ts.length) : Past M body K s (ts ++ [t]) n call p := by
  cases p with
  | unwritten =>
    refine ⟨fun i c hi => ?_, fun v hv => (h.2 v hv).concat.mono (by simp)⟩
    rcases getElem?_concat_cases hi with ⟨hlt, hi⟩ | ⟨rfl, heq⟩
    · exact (quiet_concat hlt).mpr (h.1 i c hi)
    · exact hlast c heq.symm
  | wrote =>
    obtain ⟨i, hwrites⟩ := h
    exact ⟨i, hwrites.concat hlast⟩

namespace History

variable {modes : List (κ × (κ × Phase σ ρ ν))} (h : History M body K s ts modes)

include h

theorem quiet (hquiet : Quiet M body s (ts ++ [t]) ts.length) : History M body K s (ts ++ [t]) modes := by
  refine ⟨fun n call m hn => ?_, fun n i c hn hi => ?_⟩
  · obtain ⟨hcall, hpast⟩ := h.past n call m hn
    exact ⟨hcall, hpast.concat fun _ _ => hquiet⟩
  · rcases getElem?_concat_cases hi with ⟨hlt, hi⟩ | ⟨rfl, -⟩
    · exact (quiet_concat hlt).mpr (h.later n i c hn hi)
    · exact hquiet

theorem start (call : κ) : History M body K s (ts ++ [.start call]) (modes ++ [(call, (call, .unwritten none))]) := by
  have hquiet : Quiet M body s (ts ++ [.start call]) ts.length := by
    rw [Quiet, stateAt_concat (Nat.le_refl _), stateAt, stateAt, stateAt_succ_length, stateAt_length]
    rfl
  have h' := h.quiet hquiet
  refine ⟨fun n call' m hn => ?_, fun n i c hn hi => ?_⟩
  · rw [List.getElem?_append] at hn
    split at hn
    · exact h'.past n call' m hn
    next hle =>
      obtain ⟨rfl, rfl⟩ := Prod.mk.inj (mem_singleton.mp (mem_of_getElem? hn))
      exact ⟨rfl, fun i c hi => h'.later n i c (Nat.le_of_not_lt hle) hi, by rintro v ⟨⟩⟩
  · rw [length_append] at hn
    exact h'.later n i c (by omega) hi

theorem step {m : κ × Phase σ ρ ν} {st : σ} {c : χ} (hreads : ∀ s, K.writes st = false → M.next s (st, c) = s)
    (hn : modes[n]? = some (call, m)) (hallows : K.discipline.allows m st)
    (hnext : stateAt M body s (ts ++ [.step n c]) (ts.length + 1) = M.next (stateAt M body s ts ts.length) (st, c)) :
    History M body K s (ts ++ [.step n c])
      (modes.set n (call, K.discipline.after m st (M.out (stateAt M body s ts ts.length) (st, c)))) := by
  obtain ⟨hcall, hpast⟩ := h.past n call m hn
  have hbefore : stateAt M body s (ts ++ [.step n c]) ts.length = stateAt M body s ts ts.length :=
    stateAt_concat (Nat.le_refl _)
  have hturn : (ts ++ [.step n c])[ts.length]? = some (.step n c) := List.getElem?_concat_length
  have hother : ∀ i, i ≠ n → ∀ c', (.step n c : Turn κ Empty χ) = .step i c' →
      Quiet M body s (ts ++ [.step n c]) ts.length := by
    intro i hi c' heq
    injection heq with hni
    exact absurd hni.symm hi
  have hset : ∀ m', m'.1 = call → Past M body K s (ts ++ [.step n c]) n call m'.2 →
      History M body K s (ts ++ [.step n c]) (modes.set n (call, m')) := by
    intro m' hcall' hpast'
    refine ⟨fun i call' m'' hi => ?_, fun i j c' hi hj => ?_⟩
    · rcases Pool.getElem?_set_cases hn hi with ⟨rfl, heq⟩ | ⟨hne, hi⟩
      · obtain ⟨rfl, rfl⟩ := Prod.mk.inj heq
        exact ⟨hcall', hpast'⟩
      · obtain ⟨hcall'', hpast''⟩ := h.past i call' m'' hi
        exact ⟨hcall'', hpast''.concat (hother i hne)⟩
    · rw [length_set] at hi
      rcases getElem?_concat_cases hj with ⟨hlt, hj⟩ | ⟨rfl, heq⟩
      · exact (quiet_concat hlt).mpr (h.later i j c' hi hj)
      · have hlt : n < modes.length := (List.getElem?_eq_some_iff.mp hn).1
        exact hother i (by omega) c' heq.symm
  obtain ⟨call', phase⟩ := m
  obtain rfl : call' = call := hcall
  cases hwrites : K.writes st with
  | false =>
    have hasks : K.asks call' st := by simpa [Contract.discipline, hwrites] using hallows
    have hquiet : Quiet M body s (ts ++ [.step n c]) ts.length := by
      rw [Quiet, hnext, hbefore, hreads _ hwrites]
    refine hset _ ?_ ?_
    · cases phase <;> rfl
    have hpast' := hpast.concat fun _ _ => hquiet
    cases phase with
    | wrote => exact hpast'
    | unwritten =>
      simp only [Contract.discipline, hwrites]
      refine ⟨hpast'.1, fun v hv => ?_⟩
      cases hshows : K.shows st (M.out (stateAt M body s ts ts.length) (st, c)) with
      | none =>
        rw [hshows] at hv
        exact hpast'.2 v hv
      | some =>
        rw [hshows] at hv
        cases hv
        exact ⟨ts.length, c, st, by simp, hturn, hasks, by rw [hbefore, hshows]⟩
  | true =>
    obtain ⟨seen, rfl, hpermits⟩ : ∃ seen, phase = .unwritten seen ∧ K.permits call' seen st := by
      simpa [Contract.discipline, hwrites] using hallows
    have hdone : Writes M body K s (ts ++ [.step n c]) n ts.length call' seen st
        (M.out (stateAt M body s ts ts.length) (st, c)) := by
      refine ⟨⟨c, hturn, by rw [hnext, hbefore], by rw [hbefore]⟩, hpermits, fun v hv => (hpast.2 v hv).concat,
        fun j c' hj hne => ?_⟩
      rcases getElem?_concat_cases hj with ⟨hlt, hj⟩ | ⟨heq, -⟩
      · exact (quiet_concat hlt).mpr (hpast.1 j c' hj)
      · exact absurd heq hne
    refine hset _ rfl ?_
    simp only [Contract.discipline, hwrites]
    exact ⟨ts.length, hdone⟩

end History

/-- **The history of a run** of calls that write once. -/
theorem exists_history {Q : κ × Phase σ ρ ν → α → Prop} (hreads : ∀ s st c, K.writes st = false → M.next s (st, c) = s)
    (hbody : ∀ call, (body call).Follows K.discipline Q (call, .unwritten none)) (s : S)
    (ts : List (Turn κ Empty χ)) :
    ∃ modes, Pool.Follow K.discipline Q ((calls M body).run ⟨s, []⟩ ts).calls modes ∧ History M body K s ts modes := by
  have hstateAt : ∀ ts : List (Turn κ Empty χ), stateAt M body s ts ts.length =
      ((calls M body).run ⟨s, []⟩ ts).shared := by
    intro ts
    rw [stateAt, stateAt_length]
  have hlast : ∀ (ts : List (Turn κ Empty χ)) t, stateAt M body s (ts ++ [t]) (ts.length + 1) =
      ((calls M body).run ⟨s, []⟩ (ts ++ [t])).shared := by
    intro ts t
    rw [stateAt, stateAt_succ_length, run_concat]
  refine Pool.follows_turns M body .mk Empty.elim ⟨s, []⟩ ts hbody (fun ts modes call h => h.start call)
    (fun ts modes n c hsame h => h.quiet ?_) (fun ts modes n call m st c s' hn hallows hs' hnext h => ?_)
    (fun ts modes e => e.elim) .nil ⟨?_, ?_⟩
  · rw [Quiet, hlast, hsame, stateAt_concat (Nat.le_refl _), hstateAt]
  · obtain rfl : s' = stateAt M body s ts ts.length := hs'.trans (hstateAt ts).symm
    exact h.step (fun s => hreads s st c) hn hallows ((hlast ts _).trans hnext)
  · rintro n call m ⟨⟩
  · rintro n i c - ⟨⟩

end History

end ReadWrite
