import RelayHub.Functions.Store

/-! # RelayHub functions — invocations finish once

`RowChange` lists what a statement can do to a row, with the guard it passed, and `run_change` reduces every
statement to it; the invariants are case analyses of it. The rest is about runs: a claimed row is the one
that an `AcknowledgeInvocation` left and nothing has changed since (`reach_acknowledged`), and each stored
invocation is completed at most once (`completes_le_creates`). -/

namespace RelayHub.Functions

open List Table InvocationRow

/-! ## One statement -/

/-- What a statement does to a row. -/
inductive RowChange (s : Statement) (clock : Int) (r : InvocationRow) : InvocationRow → Prop where
  | kept : RowChange s clock r r
  | timeout (hs : s = .expire r.id) (hstate : r.state = .claimed) (hdue : r.deadline ≤ clock) :
      RowChange s clock r (r.ended clock)
  | unavailable (hs : s = .expire r.id) (hstate : r.state = .pending ∨ r.state = .reserved)
      (hdue : r.claimBy ≤ clock) : RowChange s clock r (r.ended clock)
  | claim (connection : String) (hs : s = .claim r.ownerAppId connection r.id) (hstate : r.state = .pending) :
      RowChange s clock r { r with state := .reserved, connectionId := some connection, updatedAt := clock }
  | acknowledge (connection : String) (hs : s = .acknowledge r.ownerAppId connection r.id)
      (hconnection : r.connectionId = some connection) (hstate : r.state = .reserved) :
      RowChange s clock r { r with state := .claimed, updatedAt := clock }
  | release (connection : String) (hs : s = .release r.ownerAppId connection r.id)
      (hconnection : r.connectionId = some connection) (hstate : r.state = .reserved ∨ r.state = .claimed) :
      RowChange s clock r { r with state := .pending, connectionId := none, updatedAt := clock }
  | complete (connection : String) (result : RPCResult) (hs : s = .complete r.ownerAppId connection result)
      (hid : result.invocationId = r.id) (hconnection : r.connectionId = some connection)
      (hstate : r.state = .claimed) (hdeadline : clock < r.deadline) :
      RowChange s clock r { r with state := result.state, reply := some result, updatedAt := clock }

/-- What a statement does to the table. -/
inductive TableChange (s : Statement) (clock : Int) (rows : List InvocationRow) :
    List InvocationRow → Prop where
  | update {rows' : List InvocationRow} (h : List.Forall₂ (RowChange s clock) rows rows') :
      TableChange s clock rows rows'
  | insert (v : Invocation) (hash : String) (row : InvocationRow) (hs : s = .insert v hash)
      (hrow : v.row hash = some row) (hnew : ∀ r ∈ rows, r.id ≠ v.id) : TableChange s clock rows (rows ++ [row])
  | delete (caller hash : String) (hs : s = .deleteExpired caller hash) :
      TableChange s clock rows (rows.filter fun r => !(r.hasKey caller hash && decide (r.expiresAt ≤ clock)))

variable {s : Statement} {clock : Int} {r r' : InvocationRow} {id : String}

section Statements

variable {rows rows' : List InvocationRow}

theorem RowChange.id_eq (h : RowChange s clock r r') : r'.id = r.id := by
  cases h <;> rfl

theorem heldBy_iff {owner connection : String} :
    r.heldBy owner connection id = true ↔ r.id = id ∧ r.ownerAppId = owner ∧ r.connectionId = some connection := by
  simp [heldBy, and_assoc]

theorem completable_iff {owner connection : String} : r.completable owner connection id clock = true ↔
      r.id = id ∧ r.ownerAppId = owner ∧ r.connectionId = some connection ∧ r.state = .claimed ∧
        clock < r.deadline := by
  simp [completable, heldBy_iff, and_assoc]

theorem updateInvocations_change {hit : InvocationRow → Bool} {f : InvocationRow → InvocationRow} {db : FunctionDb}
    (h : ∀ r, hit r = true → RowChange s clock r (f r)) :
    TableChange s clock db.invocations (updateInvocations hit f db).2.invocations :=
  .update (forall₂_updateWhere_hit (fun _ => .kept) fun r _ hr => h r hr)

theorem overdue_change (h : r.overdue id clock = true) : RowChange (.expire id) clock r (r.ended clock) := by
  simp only [overdue, Bool.and_eq_true, Bool.or_eq_true, decide_eq_true_eq] at h
  obtain ⟨⟨rfl, -⟩, ⟨hstate, hdue⟩ | ⟨hstate, hdue⟩⟩ := h
  · exact .timeout rfl hstate hdue
  · exact .unavailable rfl hstate hdue

theorem Invocation.row_new {v : Invocation} {hash : String} (h : v.row hash = some r) :
    r.id = v.id ∧ r.state = .pending ∧ r.reply = none := by
  unfold Invocation.row at h
  split at h
  · cases h
    exact ⟨rfl, rfl, rfl⟩
  · cases h

theorem insertInvocation_change (v : Invocation) (hash : String) (db : FunctionDb) :
    TableChange (.insert v hash) clock db.invocations (insertInvocation v hash db).2.invocations := by
  have hsame : TableChange (.insert v hash) clock db.invocations db.invocations :=
    .update (forall₂_same.mpr fun _ _ => .kept)
  unfold insertInvocation
  split
  · exact hsame
  split
  · exact hsame
  next row hrow =>
  split
  · exact hsame
  split
  · exact hsame
  next hfresh =>
    refine .insert v hash row rfl hrow fun r hr hid => hfresh ?_
    exact any_eq_true.mpr ⟨r, hr, decide_eq_true hid⟩

/-- **Every statement is one of the changes.** -/
theorem run_change (s : Statement) (clock : Int) (db : FunctionDb) :
    TableChange s clock db.invocations (s.run clock db).2.invocations := by
  have hsame : TableChange s clock db.invocations db.invocations :=
    .update (forall₂_same.mpr fun _ _ => .kept)
  cases s with
  | deleteExpired caller hash => exact .delete caller hash rfl
  | insert v hash => exact insertInvocation_change v hash db
  | selectId | selectLiveId | select => exact hsame
  | expire => exact updateInvocations_change fun r => overdue_change
  | claim owner connection =>
    refine updateInvocations_change fun r hr => ?_
    simp only [claimable, Bool.and_eq_true, decide_eq_true_eq] at hr
    obtain ⟨⟨⟨⟨⟨⟨rfl, rfl⟩, -⟩, hstate⟩, -⟩, -⟩, -⟩ := hr
    exact .claim connection rfl hstate
  | acknowledge owner connection =>
    refine updateInvocations_change fun r hr => ?_
    simp only [acknowledgeable, Bool.and_eq_true, decide_eq_true_eq, heldBy_iff] at hr
    obtain ⟨⟨⟨⟨rfl, rfl, hconnection⟩, hstate⟩, -⟩, -⟩ := hr
    exact .acknowledge connection rfl hconnection hstate
  | release owner connection =>
    refine updateInvocations_change fun r hr => ?_
    simp only [releasable, Bool.and_eq_true, Bool.or_eq_true, decide_eq_true_eq, heldBy_iff] at hr
    obtain ⟨⟨rfl, rfl, hconnection⟩, hstate⟩ := hr
    exact .release connection rfl hconnection (hstate.imp And.left And.left)
  | complete owner connection result =>
    refine updateInvocations_change fun r hr => ?_
    obtain ⟨hid, rfl, hconnection, hstate, hdeadline⟩ := completable_iff.mp hr
    exact .complete connection result rfl hid.symm hconnection hstate hdeadline

theorem TableChange.ids_nodup (h : TableChange s clock rows rows') (hnd : (rows.map (·.id)).Nodup) :
    (rows'.map (·.id)).Nodup := by
  cases h with
  | update hrows => rwa [map_eq_of_forall₂ hrows (·.id) fun _ _ => RowChange.id_eq]
  | insert v hash row _ hrow hnew =>
    exact nodup_keys_concat hnd fun r hr hid => hnew r hr (hid.trans (Invocation.row_new hrow).1)
  | delete => exact hnd.sublist (filter_sublist.map _)

/-- Where a row comes from: it was there, it is another one changed, or it is new. -/
theorem TableChange.back (h : TableChange s clock rows rows') (hr' : r' ∈ rows') :
    r' ∈ rows ∨ (∃ r ∈ rows, RowChange s clock r r') ∨
    ∃ v hash, s = .insert v hash ∧ v.row hash = some r' ∧ ∀ r ∈ rows, r.id ≠ r'.id := by
  cases h with
  | update hrows => exact .inr (.inl (exists_of_forall₂_right hrows hr'))
  | insert v hash row hs hrow hnew =>
    rw [mem_append, mem_singleton] at hr'
    rcases hr' with hr' | rfl
    · exact .inl hr'
    · exact .inr (.inr ⟨v, hash, hs, hrow, (Invocation.row_new hrow).1 ▸ hnew⟩)
  | delete => exact .inl (mem_filter.mp hr').1

end Statements

/-! ## Runs -/

/-- The statement that takes effect in a step, and its clock. -/
def StoreInput.effect (st : Store) : StoreInput → Option (Statement × Int)
  | .query s clock .answered => some (s, clock)
  | .query s clock .lost => some (s, clock)
  | .query _ _ .refused => none
  | .query _ _ .adrift => none
  | .arrive n clock => st.adrift[n]?.map (·, clock)
  | .catalog _ _ => none

/-- The store after a run. -/
def storeAfter (is : List StoreInput) : Store := storeMachine.run {} is

/-- The invocations after a run. -/
def invocationsAfter (is : List StoreInput) : List InvocationRow := (storeAfter is).db.invocations

section Runs

variable {is : List StoreInput} {i : StoreInput}

theorem next_invocations (st : Store) (i : StoreInput) :
    (storeMachine.next st i).db.invocations = match i.effect st with
      | some (s, clock) => (s.run clock st.db).2.invocations
      | none => st.db.invocations := by
  cases i with
  | query s clock fate => cases fate <;> rfl
  | catalog => rfl
  | arrive n clock =>
    show (storeMachine.exec st (.arrive n clock)).2.db.invocations = _
    simp only [storeMachine, StoreInput.effect]
    cases st.adrift[n]? <;> rfl

theorem storeAfter_concat (is : List StoreInput) (i : StoreInput) :
    storeAfter (is ++ [i]) = storeMachine.next (storeAfter is) i :=
  storeMachine.run_concat {} is i

theorem after_change (is : List StoreInput) (i : StoreInput) : (∃ s clock, i.effect (storeAfter is) = some (s, clock) ∧
      TableChange s clock (invocationsAfter is) (invocationsAfter (is ++ [i]))) ∨
    i.effect (storeAfter is) = none ∧ invocationsAfter (is ++ [i]) = invocationsAfter is := by
  have hnext := next_invocations (storeAfter is) i
  rw [← storeAfter_concat] at hnext
  cases heffect : i.effect (storeAfter is) with
  | none =>
    rw [heffect] at hnext
    exact .inr ⟨rfl, hnext⟩
  | some e =>
    rw [heffect] at hnext
    have hrows : invocationsAfter (is ++ [i]) = (e.1.run e.2 (storeAfter is).db).2.invocations := hnext
    exact .inl ⟨e.1, e.2, rfl, hrows ▸ run_change e.1 e.2 _⟩

theorem after_ids_nodup (is : List StoreInput) : ((invocationsAfter is).map (·.id)).Nodup := by
  induction is using reverseRecOn with
  | nil => exact nodup_nil
  | append_singleton is i ih =>
    rcases after_change is i with ⟨s, clock, -, hchange⟩ | ⟨-, hsame⟩
    · exact hchange.ids_nodup ih
    · rwa [hsame]

/-- What becomes of a row in a step: it is changed or it has expired and is deleted. -/
theorem after_row (i : StoreInput) (hr : r ∈ invocationsAfter is) : r ∈ invocationsAfter (is ++ [i]) ∨
    (∃ s clock r', i.effect (storeAfter is) = some (s, clock) ∧ RowChange s clock r r' ∧
      r' ∈ invocationsAfter (is ++ [i])) ∨
    ∃ clock, i.effect (storeAfter is) = some (.deleteExpired r.callerAppId r.idempotencyHash, clock) ∧
      r.expiresAt ≤ clock ∧ ∀ r' ∈ invocationsAfter (is ++ [i]), r'.id ≠ r.id := by
  have hnd := after_ids_nodup is
  rcases after_change is i with ⟨s, clock, heffect, hchange⟩ | ⟨-, hsame⟩
  · generalize invocationsAfter (is ++ [i]) = rows' at hchange
    cases hchange with
    | update hrows =>
      obtain ⟨r', hr', hrow⟩ := exists_of_forall₂_left hrows hr
      exact .inr (.inl ⟨s, clock, r', heffect, hrow, hr'⟩)
    | insert => exact .inl (mem_append_left _ hr)
    | delete caller hash hs =>
      subst hs
      by_cases hgone : (r.hasKey caller hash && decide (r.expiresAt ≤ clock)) = true
      · right
        right
        simp only [hasKey, Bool.and_eq_true, decide_eq_true_eq] at hgone
        obtain ⟨⟨rfl, rfl⟩, hexpired⟩ := hgone
        refine ⟨clock, heffect, hexpired, fun r' hr' hid => ?_⟩
        -- the only row with this id is the deleted one
        obtain ⟨hmem, hstays⟩ := mem_filter.mp hr'
        rw [eq_of_key_eq hnd hmem hr hid] at hstays
        simp [hasKey, hexpired] at hstays
      · rw [Bool.not_eq_true] at hgone
        exact .inl (mem_filter.mpr ⟨hr, by rw [hgone]; rfl⟩)
  · exact .inl (hsame ▸ hr)

theorem after_row_back (i : StoreInput) (hr' : r' ∈ invocationsAfter (is ++ [i])) : r' ∈ invocationsAfter is ∨
    (∃ s clock r, i.effect (storeAfter is) = some (s, clock) ∧ r ∈ invocationsAfter is ∧ RowChange s clock r r') ∨
    r'.state = .pending ∧ r'.reply = none ∧ ∀ r ∈ invocationsAfter is, r.id ≠ r'.id := by
  rcases after_change is i with ⟨s, clock, heffect, hchange⟩ | ⟨-, hsame⟩
  · rcases hchange.back hr' with hr | ⟨r, hr, hrow⟩ | ⟨v, hash, -, hrow, hnew⟩
    · exact .inl hr
    · exact .inr (.inl ⟨s, clock, r, heffect, hr, hrow⟩)
    · exact .inr (.inr ⟨(Invocation.row_new hrow).2.1, (Invocation.row_new hrow).2.2, hnew⟩)
  · exact .inl (hsame ▸ hr')

theorem after_row_forth (i : StoreInput) (hr : r ∈ invocationsAfter is)
    (hr' : r' ∈ invocationsAfter (is ++ [i])) (hid : r'.id = r.id) :
    r' = r ∨ ∃ s clock, i.effect (storeAfter is) = some (s, clock) ∧ RowChange s clock r r' := by
  have hnd := after_ids_nodup is
  rcases after_row_back i hr' with hsame | ⟨s, clock, r₀, heffect, hr₀, hrow⟩ | ⟨-, -, hnew⟩
  · exact .inl (eq_of_key_eq hnd hsame hr hid)
  · obtain rfl := eq_of_key_eq hnd hr₀ hr (hrow.id_eq.symm.trans hid)
    exact .inr ⟨s, clock, heffect, hrow⟩
  · exact absurd hid.symm (hnew r hr)

/-! ## Terminal states and replies -/

theorem RowChange.of_terminal (h : RowChange s clock r r') (hterminal : r.state.terminal = true) : r' = r := by
  cases h with
  | kept => rfl
  | timeout _ hstate | claim _ _ hstate | acknowledge _ _ _ hstate | complete _ _ _ _ _ hstate =>
    rw [hstate] at hterminal
    cases hterminal
  | unavailable _ hstate | release _ _ _ hstate =>
    rcases hstate with hstate | hstate <;>
      · rw [hstate] at hterminal
        cases hterminal

theorem RPCResult.state_completed (result : RPCResult) : result.state.completed = true := by
  unfold RPCResult.state
  split <;> rfl

theorem RowChange.reply (h : RowChange s clock r r') (hreply : r.reply.isSome = r.state.completed) :
    r'.reply.isSome = r'.state.completed := by
  cases h with
  | kept => exact hreply
  | timeout _ hstate =>
    show r.reply.isSome = (if r.state = .claimed then InvocationState.timeout else .unavailable).completed
    rw [hreply, hstate]
    rfl
  | unavailable _ hstate =>
    show r.reply.isSome = (if r.state = .claimed then InvocationState.timeout else .unavailable).completed
    rcases hstate with hstate | hstate <;>
      · rw [hreply, hstate]
        rfl
  | claim _ _ hstate | acknowledge _ _ _ hstate =>
    rw [hstate] at hreply
    exact hreply
  | release _ _ _ hstate =>
    rcases hstate with hstate | hstate <;>
      · rw [hstate] at hreply
        exact hreply
  | complete _ result => exact (RPCResult.state_completed result).symm

theorem after_reply (is : List StoreInput) : ∀ r ∈ invocationsAfter is, r.reply.isSome = r.state.completed := by
  induction is using reverseRecOn with
  | nil => exact fun r hr => absurd hr not_mem_nil
  | append_singleton is i ih =>
    intro r' hr'
    rcases after_row_back i hr' with hsame | ⟨s, clock, r, -, hr, hrow⟩ | ⟨hstate, hreply, -⟩
    · exact ih r' hsame
    · exact hrow.reply (ih r hr)
    · rw [hstate, hreply]
      rfl

/-! ## Who may complete -/

/-- An `AcknowledgeInvocation` of this owner and connection took the row from `reserved` to `claimed`, and
nothing has changed the row since. -/
def AcknowledgedBy (is : List StoreInput) (owner connection : String) (r : InvocationRow) : Prop :=
  ∃ before i after clock r₀, is = before ++ i :: after ∧
    i.effect (storeAfter before) = some (.acknowledge owner connection r.id, clock) ∧
    r₀ ∈ invocationsAfter before ∧ r₀.id = r.id ∧ r₀.state = .reserved ∧
    ∀ mid rest, after = mid ++ rest → r ∈ invocationsAfter (before ++ i :: mid)

/-- A claimed row was acknowledged for its owner and connection. -/
theorem reach_acknowledged (is : List StoreInput) : ∀ r ∈ invocationsAfter is, r.state = .claimed →
      ∃ connection, r.connectionId = some connection ∧ AcknowledgedBy is r.ownerAppId connection r := by
  intro r' hr' hstate
  obtain ⟨before, i, after, rfl, hnew, hsince⟩ :=
    Mealy.exists_since (P := fun is => r' ∈ invocationsAfter is) not_mem_nil hr'
  rcases after_row_back i (hsince [] nil_prefix) with hr | ⟨s, clock, r, heffect, hr, hrow⟩ | ⟨hpending, -⟩
  · exact absurd hr hnew
  · cases hrow with
    | kept => exact absurd hr hnew
    | acknowledge connection hs hconnection hreserved =>
      exact ⟨connection, hconnection, before, i, after, clock, r, rfl, hs ▸ heffect, hr, rfl, hreserved,
        fun mid rest hsplit => hsince mid ⟨rest, hsplit.symm⟩⟩
    | timeout _ hclaimed => simp [ended, hclaimed] at hstate
    | unavailable _ hwaits => rcases hwaits with hwaits | hwaits <;> simp [ended, hwaits] at hstate
    | claim => cases hstate
    | release => cases hstate
    | complete _ result =>
      have hcompleted := RPCResult.state_completed result
      rw [show result.state = .claimed from hstate] at hcompleted
      cases hcompleted
  · cases hpending.symm.trans hstate

/-! ## At most once -/

/-- The step completes the invocation `id`: the `UPDATE` of a `CompleteInvocation` changes its row. -/
def completes (id : String) (t : Transition Store StoreInput Reply) : Bool :=
  match t.input.effect t.pre with
  | some (.complete owner connection result, clock) =>
    result.invocationId = id && t.pre.db.invocations.any (·.completable owner connection id clock)
  | _ => false

/-- The step stores an invocation `id`: there was none, and there is one now. -/
def creates (id : String) (t : Transition Store StoreInput Reply) : Bool :=
  !t.pre.db.invocations.any (·.id = id) && t.post.db.invocations.any (·.id = id)

/-- The invocation `id` is stored and not completed. -/
def open? (id : String) (rows : List InvocationRow) : Bool := rows.any fun r => r.id = id && !r.state.completed

theorem open?_iff {rows : List InvocationRow} :
    open? id rows = true ↔ ∃ r ∈ rows, r.id = id ∧ r.state.completed = false := by
  simp [open?]

/-- The step of a run at its end. -/
def stepAfter (is : List StoreInput) (i : StoreInput) : Transition Store StoreInput Reply :=
  ⟨storeAfter is, i, storeMachine.out (storeAfter is) i, storeAfter (is ++ [i])⟩

theorem transitions_storeAfter (is : List StoreInput) (i : StoreInput) :
    storeMachine.transitions {} (is ++ [i]) = storeMachine.transitions {} is ++ [stepAfter is i] := by
  rw [Mealy.transitions_concat, stepAfter, storeAfter_concat]
  rfl

theorem completes_iff : completes id (stepAfter is i) = true ↔ ∃ owner connection result clock,
      i.effect (storeAfter is) = some (.complete owner connection result, clock) ∧ result.invocationId = id ∧
        ∃ r ∈ invocationsAfter is, r.completable owner connection id clock = true := by
  unfold completes stepAfter
  split
  next owner connection result clock heffect =>
    simp only [Bool.and_eq_true, decide_eq_true_eq, any_eq_true, heffect, Option.some.injEq, Prod.mk.injEq,
      Statement.complete.injEq]
    constructor
    · rintro ⟨hid, hany⟩
      exact ⟨owner, connection, result, clock, ⟨⟨rfl, rfl, rfl⟩, rfl⟩, hid, hany⟩
    · rintro ⟨_, _, _, _, ⟨⟨rfl, rfl, rfl⟩, rfl⟩, hid, hany⟩
      exact ⟨hid, hany⟩
  next hother =>
    refine ⟨nofun, ?_⟩
    rintro ⟨owner, connection, result, clock, heffect, -⟩
    exact absurd heffect (hother owner connection result clock)

theorem completes_closes (h : completes id (stepAfter is i) = true) :
    open? id (invocationsAfter is) = true ∧ open? id (invocationsAfter (is ++ [i])) = false := by
  obtain ⟨owner, connection, result, clock, heffect, rfl, r, hr, hcompletable⟩ := completes_iff.mp h
  obtain ⟨hid, -, -, hstate, -⟩ := completable_iff.mp hcompletable
  refine ⟨open?_iff.mpr ⟨r, hr, hid, by rw [hstate]; rfl⟩, ?_⟩
  rw [← Bool.not_eq_true, open?_iff]
  rintro ⟨r', hr', hid', hopen⟩
  -- the row with the id is the one that the statement has completed
  have hrows : invocationsAfter (is ++ [i]) = updateWhere (·.completable owner connection result.invocationId clock)
      (fun r => { r with state := result.state, reply := some result, updatedAt := clock })
      (invocationsAfter is) := by
    have hnext := next_invocations (storeAfter is) i
    rw [← storeAfter_concat, heffect] at hnext
    exact hnext
  rw [hrows] at hr'
  obtain ⟨r₀, hr₀, rfl⟩ := mem_updateWhere.mp hr'
  have hr₀id : r₀.id = r.id := by
    rw [hid, ← hid']
    split <;> rfl
  rw [eq_of_key_eq (after_ids_nodup is) hr₀ hr hr₀id, if_pos hcompletable] at hopen
  cases (RPCResult.state_completed result).symm.trans hopen

/-- A step opens an invocation only by storing it, and only when there is none with its id. -/
theorem opens_creates (hopen : open? id (invocationsAfter (is ++ [i])) = true) :
    open? id (invocationsAfter is) = true ∨ creates id (stepAfter is i) = true := by
  obtain ⟨r', hr', hid, hcompleted⟩ := open?_iff.mp hopen
  rcases after_row_back i hr' with hr | ⟨s, clock, r, -, hr, hrow⟩ | ⟨-, -, hnew⟩
  · exact .inl (open?_iff.mpr ⟨r', hr, hid, hcompleted⟩)
  · refine .inl (open?_iff.mpr ⟨r, hr, hrow.id_eq.symm.trans hid, ?_⟩)
    cases hterminal : r.state.terminal with
    | true => rwa [← hrow.of_terminal hterminal]
    | false =>
      cases hstate : r.state <;> rw [hstate] at hterminal <;> first | rfl | cases hterminal
  · right
    simp only [creates, Bool.and_eq_true, Bool.not_eq_true', any_eq_true, any_eq_false, decide_eq_true_eq]
    exact ⟨fun r hr hr_id => hnew r hr (hr_id.trans hid.symm), r', hr', hid⟩

/-- **Each time an invocation is stored it can be completed once.** -/
theorem completes_le_creates (id : String) (is : List StoreInput) :
    (storeMachine.transitions {} is).countP (completes id) + (open? id (invocationsAfter is)).toNat
      ≤ (storeMachine.transitions {} is).countP (creates id) := by
  induction is using reverseRecOn with
  | nil => exact le_refl 0
  | append_singleton is i ih =>
    rw [transitions_storeAfter, countP_append, countP_append, countP_singleton, countP_singleton]
    cases hcompletes : completes id (stepAfter is i) with
    | true =>
      obtain ⟨hbefore, hafter⟩ := completes_closes hcompletes
      rw [hbefore, Bool.toNat_true] at ih
      rw [hafter, Bool.toNat_false, if_pos rfl]
      omega
    | false =>
      rw [if_neg Bool.false_ne_true]
      cases hafter : open? id (invocationsAfter (is ++ [i])) with
      | false =>
        rw [Bool.toNat_false]
        omega
      | true =>
        rcases opens_creates hafter with hbefore | hcreates
        · rw [hbefore, Bool.toNat_true] at ih
          rw [Bool.toNat_true]
          omega
        · rw [hcreates, Bool.toNat_true, if_pos rfl]
          omega

/-- A `CompleteInvocation` that is told that one row changed has completed it. -/
theorem accepted_completes {owner connection : String} {result : RPCResult}
    (h : storeMachine.out (storeAfter is) (.query (.complete owner connection result) clock .answered) = .affected 1) :
    completes result.invocationId (stepAfter is (.query (.complete owner connection result) clock .answered))
      = true := by
  refine completes_iff.mpr ⟨owner, connection, result, clock, rfl, rfl, ?_⟩
  have hcount : (invocationsAfter is).countP (·.completable owner connection result.invocationId clock) = 1 :=
    Reply.affected.inj h
  exact countP_pos_iff.mp (hcount ▸ Nat.one_pos)

end Runs

/-- **Invocations finish once**, in every interleaving of calls. -/
theorem invocations_finish_once (E : FunctionEnv) (turns : List (Turn Call StoreInput Choice)) :
    -- a terminal row stays as it is; after its retention it may be deleted
    (∀ before i after, storeInputs E turns = before ++ i :: after →
      ∀ r ∈ invocationsAfter before, r.state.terminal = true → r ∈ invocationsAfter (before ++ [i]) ∨
        (∀ r' ∈ invocationsAfter (before ++ [i]), r'.id ≠ r.id) ∧ ∃ clock, r.expiresAt ≤ clock ∧
          i.effect (storeAfter before) = some (.deleteExpired r.callerAppId r.idempotencyHash, clock)) ∧
    -- a reply is stored exactly in `success` and `handler_error`
    (∀ r ∈ invocationsAfter (storeInputs E turns), r.reply.isSome = r.state.completed) ∧
    -- each time an invocation is stored, at most one `CompleteInvocation` is accepted
    (∀ id, (storeMachine.transitions {} (storeInputs E turns)).countP (completes id)
      ≤ (storeMachine.transitions {} (storeInputs E turns)).countP (creates id)) ∧
    (∀ before owner connection result clock after,
      storeInputs E turns = before ++ .query (.complete owner connection result) clock .answered :: after →
      storeMachine.out (storeAfter before) (.query (.complete owner connection result) clock .answered)
        = .affected 1 →
      completes result.invocationId (stepAfter before (.query (.complete owner connection result) clock .answered))
        = true) ∧
    -- for the owner and connection whose acknowledgement still stands, before the deadline
    (∀ before i after id, storeInputs E turns = before ++ i :: after → completes id (stepAfter before i) = true →
      ∃ owner connection result clock, i.effect (storeAfter before) = some (.complete owner connection result, clock) ∧
        ∃ r ∈ invocationsAfter before, r.id = id ∧ clock < r.deadline ∧ AcknowledgedBy before owner connection r) ∧
    -- `timeout` comes after `claimed` and the deadline, `unavailable` after `pending` or `reserved` and `claim_by`
    (∀ before i after, storeInputs E turns = before ++ i :: after → ∀ r ∈ invocationsAfter before,
      ∀ r' ∈ invocationsAfter (before ++ [i]), r'.id = r.id → r'.state ≠ r.state →
      (r'.state = .timeout → r.state = .claimed ∧
        ∃ clock, i.effect (storeAfter before) = some (.expire r.id, clock) ∧ r.deadline ≤ clock) ∧
      (r'.state = .unavailable → (r.state = .pending ∨ r.state = .reserved) ∧
        ∃ clock, i.effect (storeAfter before) = some (.expire r.id, clock) ∧ r.claimBy ≤ clock)) := by
  refine ⟨?_, after_reply _, fun id => ?_, fun before owner connection result clock after _ => accepted_completes,
    ?_, ?_⟩
  · intro before i after _ r hr hterminal
    rcases after_row i hr with hsame | ⟨s, clock, r', -, hrow, hr'⟩ | ⟨clock, heffect, hexpired, hgone⟩
    · exact .inl hsame
    · exact .inl (hrow.of_terminal hterminal ▸ hr')
    · exact .inr ⟨hgone, clock, hexpired, heffect⟩
  · exact le_trans (Nat.le_add_right _ _) (completes_le_creates id _)
  · intro before i after id _ hcompletes
    obtain ⟨owner, connection, result, clock, heffect, hid, r, hr, hcompletable⟩ := completes_iff.mp hcompletes
    obtain ⟨hrid, rfl, hconnection, hstate, hdeadline⟩ := completable_iff.mp hcompletable
    obtain ⟨connection', hconnection', hby⟩ := reach_acknowledged before r hr hstate
    obtain rfl := Option.some.inj (hconnection.symm.trans hconnection')
    exact ⟨_, _, result, clock, heffect, r, hr, hrid, hdeadline, hby⟩
  · intro before i after _ r hr r' hr' hid hne
    rcases after_row_forth i hr hr' hid with rfl | ⟨s, clock, heffect, hrow⟩
    · exact absurd rfl hne
    cases hrow with
    | kept => exact absurd rfl hne
    | timeout hs hstate hdue =>
      subst hs
      refine ⟨fun _ => ⟨hstate, clock, heffect, hdue⟩, fun h => ?_⟩
      simp [ended, hstate] at h
    | unavailable hs hstate hdue =>
      subst hs
      refine ⟨fun h => ?_, fun _ => ⟨hstate, clock, heffect, hdue⟩⟩
      rcases hstate with hstate | hstate <;> simp [ended, hstate] at h
    | claim | acknowledge | release => exact ⟨nofun, nofun⟩
    | complete _ result =>
      have hcompleted := RPCResult.state_completed result
      constructor <;>
        · intro h
          rw [show result.state = _ from h] at hcompleted
          cases hcompleted

/-! ## A sample -/

def sampleEnv : FunctionEnv where
  sha256 s := "sha256 " ++ s
  validRPCResult _ := true

def sampleInvocation : Invocation where
  id := "inv_1"
  functionId := "fn_1"
  ownerAppId := "app_1"
  callerAppId := "app_2"
  name := "resize"
  input := "\x7b\x7d"
  createdAt := 0
  claimBy := 1000000
  deadline := 5000000

def sampleResult : RPCResult := ⟨"inv_1", true, "1", ""⟩

/-- The `n`-th call performs its next statement at `clock`, and the reply arrives. -/
def sampleStep (n : Nat) (clock : Int) : Turn Call StoreInput Choice := .step n ⟨clock, .answered⟩

/-- A connection reserves, acknowledges and completes an invocation, twice. -/
def sampleTurns : List (Turn Call StoreInput Choice) :=
  [.outside (.catalog [⟨"fn_1", "app_1", true⟩] [⟨"app_1", true⟩, ⟨"app_2", true⟩]),
    .start (.create sampleInvocation "key-1"), sampleStep 0 1, sampleStep 0 2, sampleStep 0 3, sampleStep 0 4,
    .start (.claim "app_1" "conn_1" "inv_1"), sampleStep 1 5,
    .start (.acknowledge "app_1" "conn_1" "inv_1"), sampleStep 2 6,
    .start (.complete "app_1" "conn_1" sampleResult), sampleStep 3 7,
    .start (.complete "app_1" "conn_1" sampleResult), sampleStep 4 8]

/-- The invocation is stored once, so the second call is too late. -/
theorem invocations_finish_once_repeated :
    (storeMachine.transitions {} (storeInputs sampleEnv sampleTurns)).countP (completes "inv_1") = 1 ∧
      ∃ r ∈ invocationsAfter (storeInputs sampleEnv sampleTurns), r.state = .success ∧
        r.reply = some sampleResult := by
  have honce := (invocations_finish_once sampleEnv sampleTurns).2.2.1 "inv_1"
  refine ⟨le_antisymm (honce.trans ?_) ?_, by decide⟩ <;> decide

end RelayHub.Functions
