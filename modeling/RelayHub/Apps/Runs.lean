import RelayHub.Apps.Calls

/-! # RelayHub applications — runs

Every turn of a run changes nothing, or it performs one call in one step: `exists_tracked` says so for every run of
any calls, with what each call has done so far. -/

namespace RelayHub.Apps

open List Program Transactions

/-! ## What calls do to applications -/

/-- The applications. -/
def rows (data : Tables) (id : String) : Option App := data (.app id)

/-- What a call does to the applications when it is performed in one step, at a time, and what it returns. -/
inductive Call.Applies (before after : String → Option App) : Call → Option App → Prop where
  | create {input : CreateApp} {appId apiKey secret : String} (t : Int) (fresh : before appId = none)
      (sets : after = Function.update before appId (some (input.app appId t))) :
      Applies before after (.create input appId apiKey secret) none
  | update {appId : String} {input : UpdateApp} {row app : App} (t : Int) (found : before appId = some row)
      (patched : app = { input.patch row with updatedAt := max row.updatedAt t })
      (sets : after = Function.update before appId (some app)) : Applies before after (.update appId input) (some app)
  | disable {appId : String} {row app : App} (t : Int) (found : before appId = some row)
      (disabled : app = { row with enabled := false, updatedAt := max row.updatedAt t })
      (sets : after = Function.update before appId (some app)) : Applies before after (.disable appId) (some app)
  | rotate {appId apiKey secret : String} {row : App} (t : Int) (found : before appId = some row)
      (sets : after = Function.update before appId (some { row with updatedAt := max row.updatedAt t })) :
      Applies before after (.rotateSecret appId apiKey secret) none

/-- The applications are valid and stored under their identifiers. -/
def Sound (E : Env) (data : Tables) : Prop := ∀ id row, rows data id = some row → row.validates E ∧ row.id = id

section Performed

variable {E : Env} {data data' : Tables} {id : String} {row : App} {credentials : List Credential}
  {key : Option String} {call : Call} {result : Option App}

theorem Sets.rows_eq (h : Sets id row credentials key data data') :
    rows data' = Function.update (rows data) id (some row) := by
  funext i
  rw [Function.update_apply]
  exact h.apps i

/-- **The row that `Update` compares has the fields that it read, so what it writes is a patch of the row.** -/
theorem merge_patch {seen : App} (input : UpdateApp) (t : Int) (h : row.sameConfiguration seen) :
    row.merge { input.patch seen with updatedAt := t } = { input.patch row with updatedAt := max row.updatedAt t } := by
  simp only [App.sameConfiguration, Bool.and_eq_true, decide_eq_true_eq] at h
  obtain ⟨⟨hname, hurl⟩, hmode⟩ := h
  simp only [App.merge, UpdateApp.patch, hname, hurl, hmode]

/-- The application that a call has read is its own. -/
def Seen (call : Call) (seen : Option App) : Prop :=
  ∀ appId input, call = .update appId input → ∀ app ∈ seen, app.id = appId

theorem Permits.applies {seen : Option App} {a : Action} (h : Permits E call seen a) (hseen : Seen call seen)
    (hperformed : Performed data data' a result) : call.Applies (rows data) (rows data') result := by
  cases h with
  | create t =>
    cases hperformed with
    | create fresh free sets => exact .create t fresh sets.rows_eq
  | @update appId input seen t =>
    obtain rfl : seen.id = appId := hseen appId input rfl seen rfl
    cases hperformed with
    | update found same sets => exact .update t found (merge_patch input t same) sets.rows_eq
  | disable t =>
    cases hperformed with
    | disable found sets => exact .disable t found rfl sets.rows_eq
  | rotate t =>
    cases hperformed with
    | rotate found free sets => exact .rotate t found sets.rows_eq

/-- A call is performed, by one of its transactions. -/
def Call.Performs (E : Env) (call : Call) (data data' : Tables) (result : Option App) : Prop :=
  ∃ seen a, Permits E call seen a ∧ Seen call seen ∧ Performed data data' a result

theorem Call.Performs.applies (h : call.Performs E data data' result) :
    call.Applies (rows data) (rows data') result := by
  obtain ⟨seen, a, hpermits, hseen, hperformed⟩ := h
  exact hpermits.applies hseen hperformed

theorem Permits.sound {seen : Option App} {a : Action} (h : Permits E call seen a)
    (hperformed : Performed data data' a result) (hdata : Sound E data) : Sound E data' := by
  have hset : ∀ {id row} {credentials : List Credential} {key}, Sets id row credentials key data data' →
      row.validates E ∧ row.id = id → Sound E data' := by
    intro id row credentials key hsets hrow i row' hi
    rw [hsets.rows_eq, Function.update_apply] at hi
    split at hi
    next heq =>
      cases hi
      exact heq ▸ hrow
    next => exact hdata i row' hi
  cases h with
  | create t valid =>
    cases hperformed with
    | create fresh free sets => exact hset sets ⟨valid, rfl⟩
  | update t valid =>
    cases hperformed with
    | update found same sets => exact hset sets ⟨valid, (hdata _ _ found).2⟩
  | disable =>
    cases hperformed with
    | disable found sets =>
      have hrow := hdata _ _ found
      exact hset sets ⟨hrow.1, hrow.2⟩
  | rotate =>
    cases hperformed with
    | rotate found free sets =>
      have hrow := hdata _ _ found
      exact hset sets ⟨hrow.1, hrow.2⟩

end Performed

/-! ## Runs -/

/-- The tables that are committed after the first turns of a run. -/
def dataAt (E : Env) (patience : Nat) (data : Tables) (ts : List AppTurn) (i : Nat) : Tables :=
  (appsAfter E patience data (ts.take i)).shared.committed

section Runs

variable {E : Env} {patience : Nat} {data : Tables} {ts : List AppTurn} {t : AppTurn} {i n : Nat}

theorem dataAt_concat (hi : i ≤ ts.length) : dataAt E patience data (ts ++ [t]) i = dataAt E patience data ts i := by
  rw [dataAt, take_append_of_le_length hi, dataAt]

theorem dataAt_length : dataAt E patience data ts ts.length = (appsAfter E patience data ts).shared.committed := by
  rw [dataAt, take_length]

/-- The turn changes nothing. -/
def Still (E : Env) (patience : Nat) (data : Tables) (ts : List AppTurn) (i : Nat) : Prop :=
  dataAt E patience data ts (i + 1) = dataAt E patience data ts i

theorem still_concat (hi : i < ts.length) : Still E patience data (ts ++ [t]) i ↔ Still E patience data ts i := by
  rw [Still, Still, dataAt_concat hi, dataAt_concat hi.le]

theorem still_length : Still E patience data (ts ++ [t]) ts.length ↔
    (appsAfter E patience data (ts ++ [t])).shared.committed = (appsAfter E patience data ts).shared.committed := by
  have hlength : (ts ++ [t]).length = ts.length + 1 := by simp
  rw [Still, ← hlength, dataAt_length, dataAt_concat le_rfl, dataAt_length]

/-- No turn of the call has changed anything. -/
def Untouched (E : Env) (patience : Nat) (data : Tables) (ts : List AppTurn) (n : Nat) : Prop :=
  ∀ i c, ts[i]? = some (.step n c) → Still E patience data ts i

/-- One turn has performed the call, and no other turn of it has changed anything. -/
def Touched (E : Env) (patience : Nat) (data : Tables) (ts : List AppTurn) (n : Nat) (call : Call)
    (result : Option App) : Prop :=
  ∃ i c, ts[i]? = some (.step n c) ∧
    call.Performs E (dataAt E patience data ts i) (dataAt E patience data ts (i + 1)) result ∧
    ∀ j c', ts[j]? = some (.step n c') → j ≠ i → Still E patience data ts j

theorem Untouched.concat (h : Untouched E patience data ts n)
    (hturn : ∀ c, t = .step n c → Still E patience data (ts ++ [t]) ts.length) :
    Untouched E patience data (ts ++ [t]) n := by
  intro i c hi
  rcases Mealy.getElem?_concat_cases hi with ⟨hlt, hi⟩ | ⟨rfl, heq⟩
  · exact (still_concat hlt).mpr (h i c hi)
  · exact hturn c heq.symm

theorem Touched.concat {call : Call} {result : Option App} (h : Touched E patience data ts n call result)
    (hturn : ∀ c, t = .step n c → Still E patience data (ts ++ [t]) ts.length) :
    Touched E patience data (ts ++ [t]) n call result := by
  obtain ⟨i, c, hi, hperforms, hothers⟩ := h
  have hlt : i < ts.length := (List.getElem?_eq_some_iff.mp hi).1
  refine ⟨i, c, ?_, ?_, fun j c' hj hne => ?_⟩
  · rw [List.getElem?_append_left hlt, hi]
  · rwa [dataAt_concat hlt, dataAt_concat hlt.le]
  · rcases Mealy.getElem?_concat_cases hj with ⟨hltj, hj⟩ | ⟨rfl, heq⟩
    · exact (still_concat hltj).mpr (hothers j c' hj hne)
    · exact hturn c' heq.symm

theorem Untouched.touched {call : Call} {result : Option App} {c : Choice Int} (h : Untouched E patience data ts n)
    (ht : t = .step n c) (hperforms : call.Performs E (appsAfter E patience data ts).shared.committed
      (appsAfter E patience data (ts ++ [t])).shared.committed result) :
    Touched E patience data (ts ++ [t]) n call result := by
  have hlength : (ts ++ [t]).length = ts.length + 1 := by simp
  refine ⟨ts.length, c, ?_, ?_, fun j c' hj hne => ?_⟩
  · rw [getElem?_concat_length, ht]
  · rwa [← hlength, dataAt_length, dataAt_concat le_rfl, dataAt_length]
  · rcases Mealy.getElem?_concat_cases hj with ⟨hltj, hj⟩ | ⟨heq, -⟩
    · exact (still_concat hltj).mpr (h j c' hj)
    · exact absurd heq hne

/-- What a call has done so far. -/
def Past (E : Env) (patience : Nat) (data : Tables) (ts : List AppTurn) (n : Nat) (p : Progress) : Prop :=
  match p.phase with
  | .open seen => Untouched E patience data ts n ∧ Seen p.call seen
  | .performed result => Touched E patience data ts n p.call result
  | .unknown => Untouched E patience data ts n ∨ ∃ result, Touched E patience data ts n p.call result

theorem Past.concat {p : Progress} (h : Past E patience data ts n p)
    (hturn : ∀ c, t = .step n c → Still E patience data (ts ++ [t]) ts.length) :
    Past E patience data (ts ++ [t]) n p := by
  obtain ⟨call, phase⟩ := p
  cases phase with
  | «open» => exact ⟨h.1.concat hturn, h.2⟩
  | performed => exact Touched.concat h hturn
  | unknown => exact h.imp (·.concat hturn) fun ⟨result, h⟩ => ⟨result, h.concat hturn⟩

/-- The calls and what they have done, with the run on the atomic machine. -/
structure Tracked (E : Env) (patience : Nat) (data : Tables) (ts : List AppTurn)
    (Q : AtomicPool Call Region.Value Op Inquiry Rows Int TxResult (Except AppError Outcome))
    (modes : List (Call × Progress)) : Prop where
  refined : Refined tables (appsAfter E patience data ts) Q
  follow : Pool.Follow (duty E) Delivered Q.calls modes
  labels : modes.map Prod.fst = ts.filterMap Turn.started
  past : ∀ (n : Nat) call p, modes[n]? = some (call, p) → p.call = call ∧ Past E patience data ts n p
  later : ∀ n, modes.length ≤ n → Untouched E patience data ts n
  sound : Sound E (appsAfter E patience data ts).shared.committed
  turns : ∀ i t, ts[i]? = some t → Still E patience data ts i ∨ ∃ n c call result, t = .step n c ∧
    (ts.filterMap Turn.started)[n]? = some call ∧
    call.Performs E (dataAt E patience data ts i) (dataAt E patience data ts (i + 1)) result

variable {Q : AtomicPool Call Region.Value Op Inquiry Rows Int TxResult (Except AppError Outcome)}
  {modes : List (Call × Progress)}

theorem appsAfter_concat : appsAfter E patience data (ts ++ [t]) =
    (concurrentCalls tables patience (Call.program E)).next (appsAfter E patience data ts) t :=
  Mealy.run_concat ..

variable {Q' : AtomicPool Call Region.Value Op Inquiry Rows Int TxResult (Except AppError Outcome)}

theorem still_of_refined (h : Refined tables (appsAfter E patience data ts) Q)
    (h' : Refined tables (appsAfter E patience data (ts ++ [t])) Q') (hsame : Q'.shared = Q.shared) :
    Still E patience data (ts ++ [t]) ts.length := by
  rw [still_length, ← h.shared, ← h'.shared, hsame]

namespace Tracked

variable (h : Tracked E patience data ts Q modes)

include h

theorem turns_concat (hlast : Still E patience data (ts ++ [t]) ts.length ∨ ∃ n c call result, t = .step n c ∧
      (ts.filterMap Turn.started)[n]? = some call ∧
      call.Performs E (appsAfter E patience data ts).shared.committed
        (appsAfter E patience data (ts ++ [t])).shared.committed result) :
    ∀ i x, (ts ++ [t])[i]? = some x → Still E patience data (ts ++ [t]) i ∨ ∃ n c call result, x = .step n c ∧
      ((ts ++ [t]).filterMap Turn.started)[n]? = some call ∧
      call.Performs E (dataAt E patience data (ts ++ [t]) i) (dataAt E patience data (ts ++ [t]) (i + 1)) result := by
  have hstarts : ∀ (n : Nat) call, (ts.filterMap Turn.started)[n]? = some call →
      ((ts ++ [t]).filterMap Turn.started)[n]? = some call := by
    intro n call hcall
    rw [filterMap_append, List.getElem?_append_left (List.getElem?_eq_some_iff.mp hcall).1, hcall]
  intro i x hi
  rcases Mealy.getElem?_concat_cases hi with ⟨hlt, hi⟩ | ⟨rfl, rfl⟩
  · rcases h.turns i x hi with hsame | ⟨n, c, call, result, hx, hcall, hperforms⟩
    · exact .inl ((still_concat hlt).mpr hsame)
    · refine .inr ⟨n, c, call, result, hx, hstarts n call hcall, ?_⟩
      rwa [dataAt_concat hlt, dataAt_concat hlt.le]
  · refine hlast.imp_right fun ⟨n, c, call', result, hx, hcall, hperforms⟩ =>
      ⟨n, c, call', result, hx, hstarts n call' hcall, ?_⟩
    have hlength : (ts ++ [x]).length = ts.length + 1 := by simp
    rwa [← hlength, dataAt_length, dataAt_concat le_rfl, dataAt_length]

theorem same (hstarted : t.started = none) (hrefined : Refined tables (appsAfter E patience data (ts ++ [t])) Q) :
    Tracked E patience data (ts ++ [t]) Q modes := by
  have hstill := still_of_refined h.refined hrefined rfl
  refine ⟨hrefined, h.follow, ?_, fun n call p hn => ?_, fun n hn => (h.later n hn).concat fun _ _ => hstill, ?_,
    h.turns_concat (.inl hstill)⟩
  · rw [h.labels, filterMap_append, filterMap_cons_none hstarted, filterMap_nil, append_nil]
  · obtain ⟨hcall, hpast⟩ := h.past n call p hn
    exact ⟨hcall, hpast.concat fun _ _ => hstill⟩
  · rw [still_length.mp hstill]
    exact h.sound

theorem start (call : Call) (hrefined : Refined tables (appsAfter E patience data (ts ++ [.start call]))
      ((atomicCalls tables (Call.program E)).next Q (.start call))) :
    Tracked E patience data (ts ++ [.start call]) ((atomicCalls tables (Call.program E)).next Q (.start call))
      (modes ++ [(call, ⟨call, .open none⟩)]) := by
  have hstill := still_of_refined h.refined hrefined rfl
  have hnone : ∀ n, ∀ c : Choice Int, (.start call : AppTurn) = .step n c →
      Still E patience data (ts ++ [.start call]) ts.length := fun _ _ _ => hstill
  refine ⟨hrefined, ?_, ?_, fun n call' p hn => ?_, fun n hn => ?_, ?_, h.turns_concat (.inl hstill)⟩
  · exact rel_append h.follow (.cons ⟨rfl, call.follows⟩ .nil)
  · rw [map_append, h.labels, filterMap_append]
    rfl
  · rw [getElem?_append] at hn
    split at hn
    · obtain ⟨hcall, hpast⟩ := h.past n call' p hn
      exact ⟨hcall, hpast.concat (hnone n)⟩
    next hle =>
      obtain ⟨rfl, rfl⟩ := Prod.mk.inj (mem_singleton.mp (mem_of_getElem? hn))
      exact ⟨rfl, (h.later n (Nat.le_of_not_lt hle)).concat (hnone n), by rintro appId input - app ⟨⟩⟩
  · rw [length_append] at hn
    exact (h.later n (by omega)).concat (hnone n)
  · rw [still_length.mp hstill]
    exact h.sound

theorem advance {c : Choice Int} (ht : t = .step n c) {call : Call}
    {p p' : Progress} (hrefined : Refined tables (appsAfter E patience data (ts ++ [t])) Q')
    (hn : modes[n]? = some (call, p)) (hfollow : Pool.Follow (duty E) Delivered Q'.calls (modes.set n (call, p')))
    (hcall : p'.call = call) (hpast : Past E patience data (ts ++ [t]) n p')
    (hsound : Sound E (appsAfter E patience data (ts ++ [t])).shared.committed)
    (hlast : Still E patience data (ts ++ [t]) ts.length ∨ ∃ result,
      call.Performs E (appsAfter E patience data ts).shared.committed
        (appsAfter E patience data (ts ++ [t])).shared.committed result) :
    Tracked E patience data (ts ++ [t]) Q' (modes.set n (call, p')) := by
  have hlabel : (modes.map Prod.fst)[n]? = some call := by
    rw [getElem?_map, hn]
    rfl
  -- a turn of this call is none of another
  have hother : ∀ i, i ≠ n → ∀ c, t = .step i c → Still E patience data (ts ++ [t]) ts.length := by
    intro i hi c' ht'
    rw [ht] at ht'
    injection ht' with hni
    exact absurd hni.symm hi
  refine ⟨hrefined, hfollow, ?_, fun i call' p'' hi => ?_, fun i hi => ?_, hsound, h.turns_concat ?_⟩
  · obtain ⟨hlt, hget⟩ := List.getElem?_eq_some_iff.mp hlabel
    rw [map_set, ← hget, set_getElem_self, h.labels, ht, filterMap_append]
    exact (append_nil _).symm
  · rcases Pool.getElem?_set_cases hn hi with ⟨rfl, heq⟩ | ⟨hne, hi⟩
    · obtain ⟨rfl, rfl⟩ := Prod.mk.inj heq
      exact ⟨hcall, hpast⟩
    · obtain ⟨hcall', hpast'⟩ := h.past i call' p'' hi
      exact ⟨hcall', hpast'.concat (hother i hne)⟩
  · rw [length_set] at hi
    have hlt : n < modes.length := (List.getElem?_eq_some_iff.mp hn).1
    exact (h.later i hi).concat (hother i (by omega))
  · rw [← h.labels]
    exact hlast.imp_right fun ⟨result, hperforms⟩ => ⟨n, c, call, result, ht, hlabel, hperforms⟩

theorem transaction {c c' : Choice Int} (ht : t = .step n c) {p : Progress} {a : Action} {seen : Option App}
    (hrefined : Refined tables (appsAfter E patience data (ts ++ [t])) Q') (hn : modes[n]? = some (p.call, p))
    (hphase : p.phase = .open seen)
    (hfollow : Pool.Follow (duty E) Delivered Q'.calls
      (modes.set n (p.call, (duty E).after p (.transaction a.body)
        (tables.atomic.out Q.shared (.transaction a.body, c')))))
    (hshared : Q'.shared = tables.atomic.next Q.shared (.transaction a.body, c'))
    (huntouched : Untouched E patience data ts n) (hseen : Seen p.call seen) (hpermits : Permits E p.call seen a) :
    Tracked E patience data (ts ++ [t]) Q' (modes.set n
      (p.call, (duty E).after p (.transaction a.body) (tables.atomic.out Q.shared (.transaction a.body, c')))) := by
  have hdata := h.refined.shared
  have hdata' := hrefined.shared
  obtain ⟨time, fate⟩ := c'
  have hfails : Q'.shared = Q.shared → ∀ p' : Progress, p'.call = p.call →
      (p'.phase = .open seen ∨ p'.phase = .unknown) →
      Pool.Follow (duty E) Delivered Q'.calls (modes.set n (p.call, p')) →
      Tracked E patience data (ts ++ [t]) Q' (modes.set n (p.call, p')) := by
    intro hsame p' hcall hphase' hfollow
    have hstill := still_of_refined h.refined hrefined hsame
    have huntouched' := huntouched.concat fun _ _ => hstill
    refine h.advance ht hrefined hn hfollow hcall ?_ ?_ (.inl hstill)
    · rcases hphase' with hphase' | hphase'
      · rw [Past, hphase', hcall]
        exact ⟨huntouched', hseen⟩
      · rw [Past, hphase']
        exact .inl huntouched'
    · rw [still_length.mp hstill]
      exact h.sound
  have hperforms : ∀ {result data'}, Performed Q.shared data' a result → Q'.shared = data' → ∀ p' : Progress,
      p'.call = p.call → (p'.phase = .performed result ∨ p'.phase = .unknown) →
      Pool.Follow (duty E) Delivered Q'.calls (modes.set n (p.call, p')) →
      Tracked E patience data (ts ++ [t]) Q' (modes.set n (p.call, p')) := by
    intro result data' hperformed hshared' p' hcall hphase' hfollow
    rw [← hshared', hdata, hdata'] at hperformed
    have hdone : p.call.Performs E _ _ result := ⟨seen, a, hpermits, hseen, hperformed⟩
    have htouched := huntouched.touched ht hdone
    refine h.advance ht hrefined hn hfollow hcall ?_ (hpermits.sound hperformed h.sound) (.inr ⟨result, hdone⟩)
    rcases hphase' with hphase' | hphase'
    · rw [Past, hphase', hcall]
      exact htouched
    · rw [Past, hphase', hcall]
      exact .inr ⟨result, htouched⟩
  cases fate with
  | refused => exact hfails hshared _ rfl (.inr rfl) hfollow
  | answered =>
    have hout : tables.atomic.out Q.shared (.transaction a.body, ⟨time, .answered⟩) =
        .result (some (tables.atomically a.body Q.shared).1) := rfl
    rw [hout] at hfollow ⊢
    change Q'.shared = (tables.atomically a.body Q.shared).2 at hshared
    rcases a.effect Q.shared with ⟨e, heffect⟩ | ⟨result, data', heffect, hperformed⟩
    · rw [heffect] at hfollow hshared ⊢
      exact hfails hshared p rfl (.inl hphase) hfollow
    · rw [heffect] at hfollow hshared ⊢
      exact hperforms hperformed hshared _ rfl (.inl rfl) hfollow
  | lost =>
    change Q'.shared = (tables.atomically a.body Q.shared).2 at hshared
    rcases a.effect Q.shared with ⟨e, heffect⟩ | ⟨result, data', heffect, hperformed⟩
    · rw [heffect] at hshared
      exact hfails hshared _ rfl (.inr rfl) hfollow
    · rw [heffect] at hshared
      exact hperforms hperformed hshared _ rfl (.inr rfl) hfollow

/-- **A turn keeps the calls tracked.** -/
theorem next (t : AppTurn) : ∃ Q' modes', Tracked E patience data (ts ++ [t]) Q' modes' := by
  have hnext := h.refined.next (Call.program E) patience t fun call' _ => call'.safe
  rw [← appsAfter_concat] at hnext
  rcases hnext with ⟨hstarted, hrefined⟩ | ⟨u, hsame, hrefined⟩
  · exact ⟨Q, modes, h.same hstarted hrefined⟩
  cases t with
  | outside e => exact e.elim
  | start call =>
    cases u with
    | start call' =>
      obtain rfl : call' = call := hsame
      exact ⟨_, _, h.start call' hrefined⟩
    | step | outside => exact hsame.elim
  | step n c =>
    cases u with
    | start | outside => exact hsame.elim
    | step n' c' =>
    obtain rfl : n' = n := hsame
    rcases h.follow.next tables.atomic (Call.program E) .mk Empty.elim n' c' with
      ⟨hidle, -⟩ | ⟨call, p, request, hn, hallows, -, hshared, hfollow⟩
    · exact ⟨Q, modes, h.same rfl (hidle ▸ hrefined)⟩
    obtain ⟨rfl, hpast⟩ := h.past n' call p hn
    have hdata := h.refined.shared
    cases request with
    | ask =>
      have hstill := still_of_refined h.refined hrefined hshared
      refine ⟨_, _, h.advance rfl hrefined hn hfollow rfl (hpast.concat fun _ _ => hstill) ?_ (.inl hstill)⟩
      rw [still_length.mp hstill]
      exact h.sound
    | query i =>
      have hstill := still_of_refined h.refined hrefined hshared
      have hsound : Sound E (appsAfter E patience data (ts ++ [.step n' c])).shared.committed := by
        rw [still_length.mp hstill]
        exact h.sound
      refine ⟨_, _, h.advance rfl hrefined hn hfollow (after_call _ _ _) ?_ hsound (.inl hstill)⟩
      rcases after_query p i (tables.atomic.out Q.shared (.query i, c')) with
        hafter | ⟨id, app, seen, rfl, hanswer, hphase, hafter⟩
      · rw [hafter]
        exact hpast.concat fun _ _ => hstill
      · rw [hafter]
        rw [Past, hphase] at hpast
        refine ⟨hpast.1.concat fun _ _ => hstill, fun appId input hcall app' happ' => ?_⟩
        cases happ'
        -- what was read is the row of the application
        obtain rfl : id = appId := Inquiry.getApplication.inj (hallows appId input hcall)
        have hrow : rows Q.shared id = some app := by
          have hreply : (if c'.fate = .answered then some (Rows.app (Q.shared (.app id))) else none) =
              some (.app (some app)) := Answer.reply.inj hanswer
          split at hreply
          · exact Rows.app.inj (Option.some.inj hreply)
          · cases hreply
        rw [hdata] at hrow
        exact (h.sound id app hrow).2
    | transaction =>
      obtain ⟨seen, a, hphase, rfl, hpermits⟩ := hallows
      rw [Past, hphase] at hpast
      obtain ⟨huntouched, hseen⟩ := hpast
      exact ⟨_, _, h.transaction rfl hrefined hn hphase hfollow hshared huntouched hseen hpermits⟩

end Tracked

theorem tracked_nil (hdata : Sound E data) : Tracked E patience data [] ⟨data, []⟩ [] := by
  refine ⟨refined_of data, .nil, rfl, ?_, ?_, hdata, ?_⟩
  · rintro n call p ⟨⟩
  · rintro n - i c ⟨⟩
  · rintro i t ⟨⟩

variable (patience) in
theorem exists_tracked (hdata : Sound E data) (ts : List AppTurn) : ∃ Q modes, Tracked E patience data ts Q modes := by
  induction ts using reverseRecOn with
  | nil => exact ⟨_, _, tracked_nil hdata⟩
  | append_singleton ts t ih =>
    obtain ⟨Q, modes, h⟩ := ih
    exact h.next t

end Runs

/-- **The calls are serializable.** What an interleaving of their statements commits and returns, a run
of the same calls commits and returns in which every transaction is one step. -/
theorem calls_serializable (E : Env) (patience : Nat) (data : Tables) (ts : List AppTurn) :
    ∃ us, us.filterMap Turn.started = ts.filterMap Turn.started ∧
      ((atomicCalls tables (Call.program E)).run ⟨data, []⟩ us).shared =
        (appsAfter E patience data ts).shared.committed ∧
      ∀ (n : Nat) call b, (appsAfter E patience data ts).calls[n]? = some (call, .done b) →
        ((atomicCalls tables (Call.program E)).run ⟨data, []⟩ us).calls[n]? = some (call, .done b) := by
  obtain ⟨us, hstarts, hrefined⟩ := (refined_of data).run (Call.program E) patience ts fun call _ => call.safe
  exact ⟨us, hstarts, hrefined.shared, fun n call b hcall => hrefined.returned hcall⟩

end RelayHub.Apps
