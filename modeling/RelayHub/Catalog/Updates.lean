import RelayHub.Catalog.Service

/-! # RelayHub catalog — updates and the rows they have read

An update writes every editable field of its row, those that it does not name as it has read them. So it is the
patch that it was asked for if the row still has these fields, and undoes the updates in between otherwise. -/

namespace RelayHub.Catalog

open Program ReadWrite

/-! ## What calls write -/

inductive Row where
  | rule (r : RoutingRule)
  | function (f : Function)

/-- What a call may write after the row that it has read last. -/
inductive Permits : Call → Option Row → Statement → Prop where
  | createRule {input : CreateRoutingRule} {id : String} {seen : Option Row} (t : Int) :
      Permits (.createRule input id) seen (.createRoutingRule (input.rule id t))
  | updateRule {id : String} {input : UpdateRoutingRule} {current : RoutingRule} (t : Int) :
      Permits (.updateRule id input) (some (.rule current))
        (.updateRoutingRule { input.patch current with updatedAt := t })
  | deleteRule {id : String} {seen : Option Row} (t : Int) : Permits (.deleteRule id) seen (.deleteRoutingRule id t)
  | register {owner id : String} {input : RegisterFunction} {seen : Option Row} (f : Function) :
      Permits (.register owner input id) seen (.createFunction f)
  | updateFunction {owner id : String} {input : UpdateFunction} {current : Function} (t : Int)
      (owned : current.appId = owner) : Permits (.updateFunction owner id input) (some (.function current))
        (.updateFunction owner { input.patch current with updatedAt := t })
  | deleteFunction {owner id : String} {seen : Option Row} : Permits (.deleteFunction owner id) seen
      (.deleteFunction owner id)

/-- Only updates read rows, their own. -/
def contract : Contract Call Statement Reply Row where
  writes
    | .getRoutingRule _ | .getFunction _ | .getApplication _ | .now => false
    | _ => true
  shows
    | .getRoutingRule _, .rule (.ok r) => some (.rule r)
    | .getFunction _, .function (.ok f) => some (.function f)
    | _, _ => none
  asks call st :=
    match st with
    | .getRoutingRule id => ∃ input, call = .updateRule id input
    | .getFunction id => ∃ owner input, call = .updateFunction owner id input
    | _ => True
  permits := Permits

/-- What is known of a call that has returned a row. -/
def Returned (m : Call × Phase Statement Reply Row) (r : Except ServiceError Outcome) : Prop :=
  (∀ id input rule, m.1 = .updateRule id input → r = .ok (.rule rule) →
    ∃ seen st, m.2 = .wrote seen st (.rule (.ok rule))) ∧
    ∀ owner id input f, m.1 = .updateFunction owner id input → r = .ok (.function f) →
      ∃ seen st, m.2 = .wrote seen st (.function (.ok f))

variable {seen : Option Row} {st : Statement}

section Follows

variable {call : Call} {m : Call × Phase Statement Reply Row} (id : String) (owner : String)

theorem now_follows : now.Follows contract.discipline (fun m' _ => m' = m) m := by
  refine follows_perform trivial fun r => ?_
  rw [contract.after_eq_self rfl rfl]
  split <;> rfl

theorem validateApplication_follows : (validateApplication id).Follows contract.discipline (fun m' _ => m' = m) m := by
  have hget : (getApplication id).Follows contract.discipline (fun m' _ => m' = m) m := by
    refine follows_perform trivial fun r => ?_
    rw [contract.after_eq_self rfl rfl]
    split <;> rfl
  refine hget.bind fun m' r hm => ?_
  split <;> exact follows_pure hm

theorem validateRule_follows (rule : RoutingRule) :
    (validateRule rule).Follows contract.discipline (fun m' _ => m' = m) m := by
  have hsource : (validateSource rule.sourceAppId).Follows contract.discipline (fun m' _ => m' = m) m := by
    cases rule.sourceAppId with
    | some source => exact validateApplication_follows source
    | none => rfl
  unfold validateRule
  split
  · rfl
  refine hsource.bind fun m' r hm => ?_
  subst hm
  split
  · rfl
  refine (validateApplication_follows _).bind fun m' r hm => ?_
  subst hm
  split
  · rfl
  split <;> rfl

theorem write_follows (hwrites : contract.writes st = true) (hpermits : Permits call seen st) :
    (perform st).Follows contract.discipline (fun m r => m = (call, .wrote seen st r)) (call, .unwritten seen) := by
  refine ⟨?_, fun r => ?_⟩
  · simp only [Contract.discipline, hwrites]
    exact ⟨seen, rfl, hpermits⟩
  · simp only [Contract.discipline, hwrites]
    exact rfl

section Replies

variable {Q : Call × Phase Statement Reply Row → Reply → Prop} (h : (perform st).Follows contract.discipline Q m)

include h

theorem onRule_follows : (onRule st).Follows contract.discipline
    (fun m r => ∀ rule, r = .ok rule → Q m (.rule (.ok rule))) m := by
  refine h.bind fun m r hr => ?_
  split
  · exact follows_pure (by rintro rule ⟨⟩; exact hr)
  · rintro rule ⟨⟩
  · rintro rule ⟨⟩

theorem onFunction_follows : (onFunction st).Follows contract.discipline
    (fun m r => ∀ f, r = .ok f → Q m (.function (.ok f))) m := by
  refine h.bind fun m r hr => ?_
  split
  · exact follows_pure (by rintro f ⟨⟩; exact hr)
  · rintro f ⟨⟩
  · rintro f ⟨⟩

end Replies

theorem updateRule_follows (input : UpdateRoutingRule) : (updateRule id input).Follows contract.discipline
      (fun m r => ∀ rule, r = .ok rule → ∃ seen st, m.2 = .wrote seen st (.rule (.ok rule)))
      (.updateRule id input, .unwritten none) := by
  unfold updateRule
  split
  · rintro rule ⟨⟩
  have hget : (perform (.getRoutingRule id)).Follows contract.discipline
      (fun m r => ∀ rule, r = .rule (.ok rule) → m = (.updateRule id input, .unwritten (some (.rule rule))))
      (.updateRule id input, .unwritten none) := ⟨⟨input, rfl⟩, by rintro r rule rfl; rfl⟩
  refine (onRule_follows hget).bind fun m r hr => ?_
  split
  · rintro rule ⟨⟩
  next current =>
  obtain rfl := hr current rfl current rfl
  refine now_follows.bind fun m t hm => ?_
  subst hm
  dsimp only
  have hvalid := validateRule_follows (m := (.updateRule id input, .unwritten (some (.rule current))))
    { input.patch current with updatedAt := t }
  generalize validateRule _ = check at hvalid ⊢
  refine hvalid.bind fun m r hm => ?_
  subst hm
  split
  · rintro rule ⟨⟩
  exact (onRule_follows (write_follows rfl (.updateRule t))).mono
    fun m r hr rule hrule => ⟨_, _, congrArg Prod.snd (hr rule hrule)⟩

theorem updateFunction_follows (id : String) (input : UpdateFunction) :
    (updateFunction owner id input).Follows contract.discipline
      (fun m r => ∀ f, r = .ok f → ∃ seen st, m.2 = .wrote seen st (.function (.ok f)))
      (.updateFunction owner id input, .unwritten none) := by
  unfold updateFunction
  split
  · rintro f ⟨⟩
  have hget : (perform (.getFunction id)).Follows contract.discipline
      (fun m r => ∀ f, r = .function (.ok f) → m = (.updateFunction owner id input, .unwritten (some (.function f))))
      (.updateFunction owner id input, .unwritten none) := ⟨⟨owner, input, rfl⟩, by rintro r f rfl; rfl⟩
  refine (onFunction_follows hget).bind fun m r hr => ?_
  split
  · rintro f ⟨⟩
  next current =>
  obtain rfl := hr current rfl current rfl
  split
  · rintro f ⟨⟩
  next howned =>
  dsimp only
  split
  · rintro f ⟨⟩
  refine now_follows.bind fun m t hm => ?_
  subst hm
  exact (onFunction_follows (write_follows rfl (.updateFunction t (not_not.mp howned)))).mono
    fun m r hr f hf => ⟨_, _, congrArg Prod.snd (hr f hf)⟩

theorem write_call_follows (hwrites : contract.writes st = true) (hpermits : Permits call seen st) :
    (write st).Follows contract.discipline (fun m _ => m.1 = call) (call, .unwritten seen) := by
  refine (write_follows hwrites hpermits).bind fun m r hm => ?_
  subst hm
  split <;> rfl

theorem createRule_follows (input : CreateRoutingRule) (id : String) : (createRule input id).Follows contract.discipline
    (fun m _ => m.1 = .createRule input id) (.createRule input id, .unwritten none) := by
  refine now_follows.bind fun m t hm => ?_
  subst hm
  dsimp only
  have hvalid := validateRule_follows (m := (.createRule input id, .unwritten none)) (input.rule id t)
  refine hvalid.bind fun m r hm => ?_
  subst hm
  split
  · rfl
  exact (write_call_follows rfl (.createRule t)).bind fun m r hm => follows_pure hm

theorem register_follows (input : RegisterFunction) (id : String) :
    (register owner input id).Follows contract.discipline
      (fun m _ => m.1 = .register owner input id) (.register owner input id, .unwritten none) := by
  unfold register
  split
  · rfl
  refine now_follows.bind fun m t hm => ?_
  subst hm
  exact (write_call_follows rfl (.register _)).bind fun m r hm => follows_pure hm

theorem deleteRule_follows : (deleteRule id).Follows contract.discipline
    (fun m _ => m.1 = .deleteRule id) (.deleteRule id, .unwritten none) := by
  unfold deleteRule
  split
  · rfl
  refine now_follows.bind fun m t hm => ?_
  subst hm
  exact write_call_follows rfl (.deleteRule t)

theorem returned_of_other {r : Except ServiceError Outcome} (hm : m.1 = call)
    (hrule : ∀ id input, call ≠ .updateRule id input)
    (hfunction : ∀ owner id input, call ≠ .updateFunction owner id input) : Returned m r :=
  ⟨fun id input _ hcall => absurd (hm.symm.trans hcall) (hrule id input),
    fun owner id input _ hcall => absurd (hm.symm.trans hcall) (hfunction owner id input)⟩

/-- **Every call keeps its contract.** -/
theorem Call.follows (call : Call) : call.program.Follows contract.discipline Returned (call, .unwritten none) := by
  -- the body of a service is opaque here, what is known of it is its lemma
  cases call with
  | createRule input id =>
    exact (createRule_follows input id).bind fun m r hm => follows_pure (returned_of_other hm (by simp) (by simp))
  | register owner input id =>
    exact (register_follows owner input id).bind fun m r hm => follows_pure (returned_of_other hm (by simp) (by simp))
  | deleteRule id =>
    rw [Call.program]
    have hdelete := deleteRule_follows id
    generalize Catalog.deleteRule id = p at hdelete ⊢
    exact hdelete.bind fun m r hm => follows_pure (returned_of_other hm (by simp) (by simp))
  | deleteFunction owner id =>
    rw [Call.program, Catalog.deleteFunction]
    split
    · exact follows_pure (returned_of_other rfl (by simp) (by simp))
    · exact (write_call_follows rfl .deleteFunction).bind fun m r hm =>
        follows_pure (returned_of_other hm (by simp) (by simp))
  | updateRule id input =>
    rw [Call.program]
    have hupdate := updateRule_follows id input
    generalize Catalog.updateRule id input = p at hupdate ⊢
    refine hupdate.bind fun m r hr => follows_pure ?_
    cases r with
    | error => simp [Returned, Except.map]
    | ok rule =>
      refine ⟨fun _ _ rule' _ heq => ?_, ?_⟩
      · cases heq
        exact hr rule rfl
      · rintro owner id' input' f - ⟨⟩
  | updateFunction owner id input =>
    refine (updateFunction_follows owner id input).bind fun m r hr => follows_pure ?_
    cases r with
    | error => simp [Returned, Except.map]
    | ok f =>
      refine ⟨?_, fun _ _ _ f' _ heq => ?_⟩
      · rintro id' input' rule - ⟨⟩
      · cases heq
        exact hr f rfl

end Follows

/-! ## Effects -/

/-- The function of an owner. -/
def Tables.functionOf (s : Tables) (key : String × String) : Option Function :=
  s.functions.find? (Function.isOf key.1 key.2)

variable {s : Tables}

/-- The first function with an identifier is the first one of its owner with it. -/
theorem functionOf_of_function {id : String} {f : Function} (h : s.function id = some f) :
    s.functionOf (f.appId, id) = some f := by
  obtain ⟨hid, before, after, hfunctions, hbefore⟩ := List.find?_eq_some_iff_append.mp h
  refine List.find?_eq_some_iff_append.mpr ⟨?_, before, after, hfunctions, fun g hg => ?_⟩
  · simp [Function.isOf, hid]
  · have hg := hbefore g hg
    simp [Function.isOf, hg]

theorem next_of_reads (s : Tables) (st : Statement) (c : Choice) (h : contract.writes st = false) :
    store.next s (st, c) = s := by
  obtain ⟨t, app, fate⟩ := c
  cases fate <;> cases st <;> first | rfl | cases h

variable {c : Choice}

theorem updateRoutingRule_effect {rule r : RoutingRule} (h : store.out s (.updateRoutingRule rule, c) = .rule (.ok r)) :
    ∃ row, s.rule rule.id = some row ∧ r = rule.overwrite row ∧
      (store.next s (.updateRoutingRule rule, c)).rule = Function.update s.rule rule.id (some r) := by
  obtain ⟨t, app, fate⟩ := c
  cases fate with
  | refused | foreignKey | lost => cases h
  | answered =>
    change Reply.rule (found ((s.rule rule.id).map rule.overwrite)) = _ at h
    cases hrow : s.rule rule.id with
    | none =>
      rw [hrow] at h
      cases h
    | some row =>
      rw [hrow] at h
      cases h
      refine ⟨row, rfl, rfl, Table.find?_updateWhere_key (fun _ _ _ => rfl) (fun id r hr hr' => ?_) hrow⟩
      simp only [RoutingRule.isLive, Bool.and_eq_true, decide_eq_true_eq] at hr hr'
      exact hr'.1.symm.trans hr.1

theorem updateFunction_effect {owner : String} {f r : Function}
    (h : store.out s (.updateFunction owner f, c) = .function (.ok r)) :
    ∃ row, s.functionOf (owner, f.id) = some row ∧ r = f.overwrite row ∧
      (store.next s (.updateFunction owner f, c)).functionOf = Function.update s.functionOf (owner, f.id) (some r) := by
  obtain ⟨t, app, fate⟩ := c
  cases fate with
  | refused | foreignKey | lost => cases h
  | answered =>
    change Reply.function (s.updateFunction owner f).1 = _ at h
    change ∃ row, _ ∧ _ ∧ (s.updateFunction owner f).2.functionOf = _
    unfold Tables.updateFunction at h ⊢
    cases hrow : s.functions.find? (Function.isOf owner f.id) with
    | none =>
      rw [hrow] at h
      cases h
    | some row =>
      simp only [hrow] at h ⊢
      split at h
      · cases h
      next hunique =>
      cases h
      rw [if_neg hunique]
      refine ⟨row, hrow, rfl, Table.find?_updateWhere_key (k := (owner, f.id))
        (p := fun key : String × String => Function.isOf key.1 key.2) (fun _ _ _ => rfl) (fun key r hr hr' => ?_) hrow⟩
      simp only [Function.isOf, Function.is, Bool.and_eq_true, decide_eq_true_eq] at hr hr'
      exact Prod.ext (hr'.2.symm.trans hr.2) (hr'.1.symm.trans hr.1)

theorem read_of_shows {row : Row} (h : contract.shows st (store.out s (st, c)) = some row) :
    (∃ id r, row = .rule r ∧ st = .getRoutingRule id ∧ s.rule id = some r) ∨
      ∃ id f, row = .function f ∧ st = .getFunction id ∧ s.function id = some f := by
  obtain ⟨t, app, fate⟩ := c
  cases st with
  | getRoutingRule id =>
    cases fate with
    | refused | foreignKey | lost => cases h
    | answered =>
      change contract.shows (.getRoutingRule id) (.rule (found (s.rule id))) = _ at h
      cases hrow : s.rule id with
      | none => simp [hrow, found, contract] at h
      | some r =>
        rw [hrow] at h
        exact .inl ⟨id, r, (Option.some.inj h).symm, rfl, hrow⟩
  | getFunction id =>
    cases fate with
    | refused | foreignKey | lost => cases h
    | answered =>
      change contract.shows (.getFunction id) (.function (found (s.function id))) = _ at h
      cases hrow : s.function id with
      | none => simp [hrow, found, contract] at h
      | some f =>
        rw [hrow] at h
        exact .inr ⟨id, f, (Option.some.inj h).symm, rfl, hrow⟩
  | _ => cases fate <;> cases h

/-! ## Patches -/

/-- What an update of a rule writes, after what it has seen. -/
def UpdateRoutingRule.write (input : UpdateRoutingRule) (t : Int) (seen row : RoutingRule) : RoutingRule :=
  RoutingRule.overwrite { input.patch seen with updatedAt := t } row

/-- The patch that it is. -/
def UpdateRoutingRule.apply (input : UpdateRoutingRule) (t : Int) (row : RoutingRule) : RoutingRule :=
  { input.patch row with updatedAt := max row.updatedAt t }

/-- The fields that an update does not name are the same in two rules. -/
structure UpdateRoutingRule.Agree (input : UpdateRoutingRule) (r r' : RoutingRule) : Prop where
  sourceAppId : input.sourceAppId = none → r.sourceAppId = r'.sourceAppId
  eventType : input.eventType = none → r.eventType = r'.eventType
  targetAppId : input.targetAppId = none → r.targetAppId = r'.targetAppId
  realtimeChannel : input.realtimeChannel = none → r.realtimeChannel = r'.realtimeChannel
  enabled : input.enabled = none → r.enabled = r'.enabled

def UpdateFunction.write (input : UpdateFunction) (t : Int) (seen row : Function) : Function :=
  Function.overwrite { input.patch seen with updatedAt := t } row

def UpdateFunction.apply (input : UpdateFunction) (t : Int) (row : Function) : Function :=
  { input.patch row with updatedAt := t }

/-- The fields that an update does not name are the same in two functions. -/
structure UpdateFunction.Agree (input : UpdateFunction) (f f' : Function) : Prop where
  name : input.name = none → f.name = f'.name
  timeoutSeconds : input.timeoutSeconds = none → f.timeoutSeconds = f'.timeoutSeconds
  enabled : input.enabled = none → f.enabled = f'.enabled

theorem getD_eq_getD_iff {α : Type} {o : Option α} {a b : α} : o.getD a = o.getD b ↔ (o = none → a = b) := by
  cases o <;> simp

theorem UpdateRoutingRule.write_eq_apply_iff (input : UpdateRoutingRule) (t : Int) (seen row : RoutingRule) :
    input.write t seen row = input.apply t row ↔ input.Agree seen row := by
  simp only [UpdateRoutingRule.write, UpdateRoutingRule.apply, RoutingRule.overwrite, UpdateRoutingRule.patch,
    RoutingRule.mk.injEq, getD_eq_getD_iff, Option.map_eq_none_iff, true_and, and_true]
  exact ⟨fun ⟨ha, hb, hc, hd, he⟩ => ⟨ha, hb, hc, hd, he⟩, fun ⟨ha, hb, hc, hd, he⟩ => ⟨ha, hb, hc, hd, he⟩⟩

theorem UpdateFunction.write_eq_apply_iff (input : UpdateFunction) (t : Int) (seen row : Function) :
    input.write t seen row = input.apply t row ↔ input.Agree seen row := by
  simp only [UpdateFunction.write, UpdateFunction.apply, Function.overwrite, UpdateFunction.patch, Function.mk.injEq,
    getD_eq_getD_iff, Option.map_eq_none_iff, true_and, and_true]
  exact ⟨fun ⟨ha, hb, hc⟩ => ⟨ha, hb, hc⟩, fun ⟨ha, hb, hc⟩ => ⟨ha, hb, hc⟩⟩

/-- How an update was carried out: it read a row in one turn, and in a later one it wrote the row, as it was then. It is
the patch that it was asked for exactly if the fields that it does not name were the same in both. -/
def CarriedOut {κ α : Type} [DecidableEq κ] (rowsAt : Nat → κ → Option α) (ts : List CatalogTurn) (n : Nat) (key : κ)
    (write : Int → α → α → α) (apply : Int → α → α) (Agree : α → α → Prop) (result : α) : Prop :=
  ∃ j i seen row t, j < i ∧ (∃ c, ts[j]? = some (.step n c)) ∧ (∃ c, ts[i]? = some (.step n c)) ∧
    rowsAt j key = some seen ∧ rowsAt i key = some row ∧
    rowsAt (i + 1) = Function.update (rowsAt i) key (some result) ∧ result = write t seen row ∧
    (result = apply t row ↔ Agree seen row) ∧
    ∀ k c, ts[k]? = some (.step n c) → k ≠ i → rowsAt (k + 1) = rowsAt k

section Updates

variable {data : Tables} {ts : List CatalogTurn} {n i : Nat}

theorem rule_carriedOut {id : String} {input : UpdateRoutingRule} {rule : RoutingRule}
    (h : Writes store Call.program contract data ts n i (.updateRule id input) seen st (.rule (.ok rule))) :
    CarriedOut (fun i => (tablesAt data ts i).rule) ts n id input.write input.apply input.Agree rule := by
  obtain ⟨⟨c, hturn, hnext, hreply⟩, hpermitted, hsaw, hothers⟩ := h
  cases hpermitted with
  | @updateRule _ _ current t =>
    obtain ⟨j, c', st', hji, hread, hasks, hshows⟩ := hsaw _ rfl
    rcases read_of_shows hshows with ⟨id', r, hrow, rfl, hseen⟩ | ⟨_, _, hrow, -⟩
    · cases hrow
      obtain ⟨input', hinput⟩ := hasks
      obtain ⟨rfl, -⟩ : id = id' ∧ input = input' := by simpa using hinput
      have hid : current.id = id := by
        have hlive := List.find?_some hseen
        simp only [RoutingRule.isLive, Bool.and_eq_true, decide_eq_true_eq] at hlive
        exact hlive.1
      obtain ⟨row, hrow, hresult, heffect⟩ := updateRoutingRule_effect hreply.symm
      change (stateAt store Call.program data ts i).rule current.id = some row at hrow
      rw [← hnext] at heffect
      change _ = Function.update _ current.id _ at heffect
      rw [hid] at hrow heffect
      refine ⟨j, i, current, row, t, hji, ⟨c', hread⟩, ⟨c, hturn⟩, hseen, hrow, heffect, hresult, ?_,
        fun k c'' hk hne => ?_⟩
      · rw [hresult]
        exact input.write_eq_apply_iff t current row
      · exact congrArg Tables.rule (hothers k c'' hk hne)
    · cases hrow

theorem function_carriedOut {owner id : String} {input : UpdateFunction} {f : Function}
    (h : Writes store Call.program contract data ts n i (.updateFunction owner id input) seen st (.function (.ok f))) :
    CarriedOut (fun i => (tablesAt data ts i).functionOf) ts n (owner, id) input.write input.apply input.Agree f := by
  obtain ⟨⟨c, hturn, hnext, hreply⟩, hpermitted, hsaw, hothers⟩ := h
  cases hpermitted with
  | @updateFunction _ _ _ current t howned =>
    obtain ⟨j, c', st', hji, hread, hasks, hshows⟩ := hsaw _ rfl
    rcases read_of_shows hshows with ⟨_, _, hrow, -⟩ | ⟨id', f', hrow, rfl, hseen⟩
    · cases hrow
    cases hrow
    obtain ⟨owner', input', hinput⟩ := hasks
    obtain ⟨-, rfl, -⟩ : owner = owner' ∧ id = id' ∧ input = input' := by simpa using hinput
    have hid : current.is id = true := List.find?_some hseen
    have hseenOf : (stateAt store Call.program data ts j).functionOf (owner, id) = some current :=
      howned ▸ functionOf_of_function hseen
    replace hid : current.id = id := of_decide_eq_true hid
    obtain ⟨row, hrow, hresult, heffect⟩ := updateFunction_effect hreply.symm
    change (stateAt store Call.program data ts i).functionOf (owner, current.id) = some row at hrow
    rw [← hnext] at heffect
    change _ = Function.update _ (owner, current.id) _ at heffect
    rw [hid] at hrow heffect
    refine ⟨j, i, current, row, t, hji, ⟨c', hread⟩, ⟨c, hturn⟩, hseenOf, hrow, heffect, hresult, ?_,
      fun k c'' hk hne => ?_⟩
    · rw [hresult]
      exact input.write_eq_apply_iff t current row
    · exact congrArg Tables.functionOf (hothers k c'' hk hne)

end Updates

/-- **An update is an atomic patch exactly if nobody has changed the other fields since it read them.** -/
theorem update_is_patch_iff (data : Tables) (ts : List CatalogTurn) (n : Nat) :
    (∀ id input rule, (catalogAfter data ts).calls[n]? = some (.updateRule id input, .done (.ok (.rule rule))) →
      CarriedOut (fun i => (tablesAt data ts i).rule) ts n id input.write input.apply input.Agree rule) ∧
    ∀ owner id input f, (catalogAfter data ts).calls[n]? =
      some (.updateFunction owner id input, .done (.ok (.function f))) →
      CarriedOut (fun i => (tablesAt data ts i).functionOf) ts n (owner, id) input.write input.apply input.Agree f := by
  obtain ⟨modes, hfollow, hhistory⟩ := exists_history next_of_reads Call.follows data ts
  refine ⟨fun id input rule hcall => ?_, fun owner id input f hcall => ?_⟩
  · obtain ⟨m, hmode, hreturned⟩ := hfollow.mode_of_call hcall
    obtain ⟨hlabel, hpast⟩ := hhistory.past n _ m hmode
    obtain ⟨seen, st, hwrote⟩ := hreturned.1 id input rule hlabel rfl
    rw [hwrote] at hpast
    obtain ⟨i, hwrites⟩ := hpast
    exact rule_carriedOut hwrites
  · obtain ⟨m, hmode, hreturned⟩ := hfollow.mode_of_call hcall
    obtain ⟨hlabel, hpast⟩ := hhistory.past n _ m hmode
    obtain ⟨seen, st, hwrote⟩ := hreturned.2 owner id input f hlabel rfl
    rw [hwrote] at hpast
    obtain ⟨i, hwrites⟩ := hpast
    exact function_carriedOut hwrites

def sampleRule : RoutingRule := ⟨"route_1", none, "order.created", "app_b", none, true, 0, 0, none⟩

def sampleFunction : Function := ⟨"fn_1", "app_a", "charge", 10, true, 0, 0⟩

/-- Statements of a call that are answered. -/
def answered (n count : Nat) (t : Int) : List CatalogTurn := List.replicate count (.step n ⟨t, some true, .answered⟩)

/-- **Updates of different fields undo each other**: both calls have read the row before one of them writes it. Both
succeed, and the rule is enabled again, the function has its old timeout. -/
theorem concurrent_update_lost :
    let disable : Call := .updateRule "route_1" ⟨none, none, none, none, some false⟩
    let rename : Call := .updateRule "route_1" ⟨none, some "order.paid", none, none, none⟩
    let extend : Call := .updateFunction "app_a" "fn_1" ⟨none, some 20, none⟩
    let stop : Call := .updateFunction "app_a" "fn_1" ⟨none, none, some false⟩
    let after := catalogAfter ⟨[sampleRule], [sampleFunction]⟩
      ([.start disable, .start rename, .start extend, .start stop]
      ++ answered 0 1 5 ++ answered 1 1 5 ++ answered 2 1 5 ++ answered 3 1 5
      ++ answered 0 3 6 ++ answered 1 3 7 ++ answered 2 2 6 ++ answered 3 2 7)
    after.calls[0]? = some (disable, .done (.ok (.rule { sampleRule with enabled := false, updatedAt := 6 }))) ∧
      after.calls[1]? = some (rename,
        .done (.ok (.rule { sampleRule with eventType := "order.paid", updatedAt := 7 }))) ∧
      after.shared.rule "route_1" = some { sampleRule with eventType := "order.paid", updatedAt := 7 } ∧
      after.calls[2]? = some (extend,
        .done (.ok (.function { sampleFunction with timeoutSeconds := 20, updatedAt := 6 }))) ∧
      after.calls[3]? = some (stop, .done (.ok (.function { sampleFunction with enabled := false, updatedAt := 7 }))) ∧
      after.shared.functionOf ("app_a", "fn_1") = some { sampleFunction with enabled := false, updatedAt := 7 } :=
  ⟨rfl, rfl, rfl, rfl, rfl, rfl⟩

end RelayHub.Catalog
