import RelayHub.Events.Idempotent

/-! # RelayHub events — a repeated publish

`EventService.publish` looks for the record of the key before it checks the target applications, so a retry returns
the stored publication whatever became of its targets. But it resolves the targets of a request first: when the
request names none, they come from the routing rules of the moment, and a retry fails if these no longer resolve.
`replays_iff` says exactly when a retry replays. -/

namespace RelayHub.Events

open List Queue Delivery Text

/-- `FindPublication`; `clock` is `clock_timestamp()`. -/
def findPublication (E : StoreEnv) (source key : String) (clock : Int) (db : EventDb) :
    Except StoreError Publication :=
  match db.idempotency.find? fun r =>
      r.isFor source (idempotencyHash E source key) && decide (clock < r.expiresAt) with
  | some r => .ok r.publication
  | none => .error .notFound

/-- The targets of the request resolve: it names them, or the rules of the router give targets that are distinct and
not blank. -/
def Resolves (o : EventOptions) (reads : Reads) (input : PublishRequest) : Prop :=
  input.targetAppIds ≠ [] ∨ o.hasRouter = true ∧ ∃ rules, reads.rules = .ok rules ∧
    (∃ r ∈ rules, r.enabled = true) ∧ (∀ t ∈ ruleTargets rules, Text.trimSpace t ≠ "") ∧
    ((ruleTargets rules).map Text.trimSpace).Nodup

/-! ## Targets -/

theorem trimTargets_isSome {seen targets : List String} :
    (trimTargets seen targets).isSome = true ↔ (∀ t ∈ targets, trimSpace t ≠ "" ∧ trimSpace t ∉ seen) ∧
        (targets.map trimSpace).Nodup := by
  induction targets generalizing seen with
  | nil => simp [trimTargets]
  | cons t targets ih =>
    unfold trimTargets
    by_cases hbad : trimSpace t = "" ∨ trimSpace t ∈ seen
    · have hnone : (trimSpace t = "" || seen.contains (trimSpace t)) = true := by
        simpa using hbad
      simp only [hnone]
      constructor
      · intro h
        cases h
      · intro h
        have hgood := h.1 t mem_cons_self
        exact absurd hbad (not_or.mpr hgood)
    · have hsome : (trimSpace t = "" || seen.contains (trimSpace t)) = false := by
        simpa using hbad
      simp only [hsome, Bool.false_eq_true, if_false, Option.isSome_map, ih]
      rw [map_cons, nodup_cons, forall_mem_cons]
      rw [not_or] at hbad
      constructor
      · rintro ⟨hrest, hnd⟩
        refine ⟨⟨hbad, fun x hx => ⟨(hrest x hx).1, fun hseen => (hrest x hx).2 (mem_cons_of_mem _ hseen)⟩⟩,
          fun hmem => ?_, hnd⟩
        obtain ⟨x, hx, heq⟩ := mem_map.mp hmem
        exact (hrest x hx).2 (heq ▸ mem_cons_self)
      · rintro ⟨⟨-, hrest⟩, hnew, hnd⟩
        refine ⟨fun x hx => ⟨(hrest x hx).1, fun hmem => ?_⟩, hnd⟩
        rcases mem_cons.mp hmem with heq | hmem
        · exact hnew (heq ▸ mem_map_of_mem hx)
        · exact (hrest x hx).2 hmem

theorem ruleTargets_ne_nil {rules : List RoutingRule} : ruleTargets rules ≠ [] ↔ ∃ r ∈ rules, r.enabled = true := by
  suffices h : ∀ targets : List String, rules.foldl (fun targets r =>
      if r.enabled && !targets.contains r.targetAppId then targets ++ [r.targetAppId] else targets) targets ≠ [] ↔
        targets ≠ [] ∨ ∃ r ∈ rules, r.enabled = true by
    simpa [ruleTargets] using h []
  induction rules with
  | nil => simp
  | cons r rules ih =>
    intro targets
    rw [foldl_cons, ih]
    simp only [mem_cons, exists_eq_or_imp]
    cases targets with
    | nil => cases r.enabled <;> simp
    | cons => split <;> simp

variable {E : StoreEnv} {o o' : EventOptions} {reads reads' : Reads} {source key : String} {input : PublishRequest}
  {clock : Int} {db db' : EventDb} {r : IdempotencyRow}

/-- The service gets past the targets of a request if and only if they resolve. -/
theorem resolves_iff (hnamed : input.targetAppIds ≠ [] → (trimTargets [] input.targetAppIds).isSome = true) :
    (∃ ts, requestTargets o reads input = .ok ts ∧ (trimTargets [] ts).isSome = true) ↔ Resolves o reads input := by
  unfold requestTargets Resolves
  cases hempty : input.targetAppIds with
  | cons t targets =>
    have hne : input.targetAppIds ≠ [] := hempty ▸ cons_ne_nil t targets
    constructor
    · exact fun _ => .inl (cons_ne_nil t targets)
    · exact fun _ => ⟨t :: targets, rfl, hempty ▸ hnamed hne⟩
  | nil =>
    cases o.hasRouter with
    | false => simp
    | true =>
      cases hrules : reads.rules with
      | error => simp
      | ok rules =>
        simp only [Except.ok.injEq, exists_eq_left', ← ruleTargets_ne_nil]
        cases htargets : ruleTargets rules with
        | nil => simp
        | cons =>
          simp only [trimTargets_isSome]
          simp

/-! ## The record of an accepted request -/

/-- `PRIMARY KEY (source_app_id,key_hash)`. -/
def IdempotencyRow.primaryKey (r : IdempotencyRow) : String × String := (r.sourceAppId, r.keyHash)

/-- A record has the publication: its jobs, and the JSON of its event. -/
def IdempotencyRow.keeps (p : Publication) (r : IdempotencyRow) : Prop :=
  r.publication.jobs = p.jobs ∧ r.publication.event.json = p.event.json

theorem records_eq_singleton {hash : String} (hprimary : (db.idempotency.map (·.primaryKey)).Nodup)
    (hr : r ∈ db.idempotency) (hfor : r.isFor source hash = true) : db.records source hash = [r] := by
  rw [← Table.filter_key_eq_singleton hprimary hr]
  refine filter_congr fun x _ => ?_
  obtain ⟨rfl, rfl⟩ := recordFor_iff.mp hfor
  refine Bool.eq_iff_iff.mpr ?_
  rw [recordFor_iff, decide_eq_true_eq, IdempotencyRow.primaryKey, IdempotencyRow.primaryKey, Prod.mk.injEq]

/-- A call of `PublishEvent` that succeeds leaves the record of what it returns. -/
theorem publishEvent_record {p q : Publication} {replay : Bool} {retention : EventRetention}
    (hprimary : (db.idempotency.map (·.primaryKey)).Nodup)
    (h : publishEvent E p key retention clock db = .ok ((q, replay), db')) :
    ∃ r, db'.records p.event.sourceAppId (idempotencyHash E p.event.sourceAppId key) = [r] ∧ r.keeps q := by
  have heq := publishEvent_eq E ⟨p, key, retention, clock⟩ db
  rw [h] at heq
  split at heq
  · set c : PublishCall := ⟨p, key, retention, clock⟩
    have hfor : c.isFor E c.source (c.hash E) = true := isFor_iff.mpr ⟨rfl, rfl⟩
    have hdropped : ((dropExpired E c db).idempotency.map (·.primaryKey)).Nodup :=
      (filter_sublist.map _).nodup hprimary
    unfold findRecord at heq
    cases hfind : (dropExpired E c db).idempotency.find? (IdempotencyRow.isFor c.source (c.hash E)) with
    | some r =>
      rw [hfind] at heq
      cases heq
      exact ⟨r, records_eq_singleton hdropped (mem_of_find?_eq_some hfind) (find?_some hfind), rfl, rfl⟩
    | none =>
      rw [hfind, Option.map_none, completePublish] at heq
      cases hins : insertPublication E c.publication (c.hash E) c.retention (dropExpired E c db) with
      | error =>
        rw [hins] at heq
        cases heq
      | ok =>
        rw [hins] at heq
        cases heq
        obtain ⟨e, hstored, -, hrecords⟩ := records_committed c.source (c.hash E) hins
        have hnone : (dropExpired E c db).records c.source (c.hash E) = [] := by
          rw [EventDb.records, ← head?_eq_none_iff, head?_filter, hfind]
        rw [hnone, hfor] at hrecords
        exact ⟨_, hrecords, rfl, stored_json hstored⟩
  · cases heq

theorem publish_accepted {q : Publication} {replay : Bool}
    (h : publish E o reads source input key clock db = .ok ((q, replay), db')) :
    validRequest source input key = true ∧
      (∃ ts, requestTargets o reads input = .ok ts ∧ (trimTargets [] ts).isSome = true) ∧
      (reads.publication = .ok q ∧ db' = db ∨ ∃ p, p.event.sourceAppId = source ∧
        publishEvent E p key (normalizeRetention o.retention) clock db = .ok ((q, replay), db')) := by
  unfold publish at h
  split at h
  · cases h
  next hvalid =>
  refine ⟨by simpa using hvalid, ?_⟩
  split at h
  · cases h
  next ts hts =>
  split at h
  · cases h
  next hts' =>
  refine ⟨⟨ts, hts, by rw [hts']; rfl⟩, ?_⟩
  split at h
  next hp =>
    cases h
    exact .inl ⟨hp, rfl⟩
  · split at h
    · cases h
    split at h
    · cases h
    next p hp =>
    split at h
    · cases h
    next hr =>
      cases h
      exact .inr ⟨p, (makePublication_ok hts hts' rfl hp).sourceAppId, hr⟩
  · cases h

/-- A request whose targets resolve returns what the service finds. -/
theorem publish_of_found {p : Publication} (hvalid : validRequest source input key = true)
    (htargets : ∃ ts, requestTargets o reads input = .ok ts ∧ (trimTargets [] ts).isSome = true)
    (hfound : reads.publication = .ok p) :
    publish E o reads source input key clock db = .ok ((p, true), db) := by
  obtain ⟨ts, hts, hsome⟩ := htargets
  obtain ⟨ts', hts'⟩ := Option.isSome_iff_exists.mp hsome
  simp only [publish, hvalid, Bool.not_true, Bool.false_eq_true, if_false, hts, hts', hfound]

/-! ## Retries -/

theorem recorded_run {hash : String} (h : db.records source hash = [r]) (ops : List PublishOp)
    (hlive : ∀ c ∈ callsIn ops, c.isFor E source hash = true → c.clock < r.expiresAt) :
    Recorded E source hash r ((publishers E).run ⟨db, []⟩ ops) := by
  induction ops using reverseRecOn with
  | nil => exact ⟨h, fun x hx => (by cases hx)⟩
  | append_singleton ops op ih =>
    have hcalls : callsIn ops ⊆ callsIn (ops ++ [op]) := by
      rw [callsIn_concat]
      exact subset_append_left _ _
    rw [Mealy.run_concat]
    refine ((ih fun c hc => hlive c (hcalls hc)).step ((lockInv_run E db ops).mono hcalls)
      (publishers_cases E _ op) (fun c hc => ?_) hlive).1
    rw [callsIn_concat]
    exact mem_append_right _ (Option.mem_toList.mpr hc)

theorem findPublication_of_records (h : db.records source (idempotencyHash E source key) = [r])
    (hlive : clock < r.expiresAt) : findPublication E source key clock db = .ok r.publication := by
  have hfilter : (db.idempotency.filter fun r =>
      r.isFor source (idempotencyHash E source key) && decide (clock < r.expiresAt)) = [r] := by
    simp only [Bool.and_comm (IdempotencyRow.isFor _ _ _)]
    rw [← filter_filter, show db.idempotency.filter _ = [r] from h]
    simp [hlive]
  rw [findPublication, ← head?_filter, hfilter]
  rfl

def routedRequest : PublishRequest := { sampleRequest none with targetAppIds := [] }

def routedOptions (now : Int) : EventOptions := { sampleOptions now with hasRouter := true }

def routedReads (rules : List RoutingRule) (publication : Except StoreError Publication) : Reads :=
  { sampleReads with rules := .ok rules, publication }

def routedPublish : Except ServiceError ((Publication × Bool) × EventDb) :=
  publish retryStore (routedOptions 1700000000000000000) (routedReads [⟨"app_1", true⟩] (.error .notFound)) "app_2"
    routedRequest "key-1" 1700000000000000 (sampleDb [])

theorem primary_sampleDb : ((sampleDb []).idempotency.map (·.primaryKey)).Nodup := nodup_nil

theorem routedPublish_ok : ∃ q db', routedPublish = .ok ((q, false), db') ∧
    ∀ r ∈ db'.records "app_2" (idempotencyHash retryStore "app_2" "key-1"), 1700000001000000 < r.expiresAt := by
  have hrun : (routedPublish.toOption.map fun r =>
      (r.1.2, (r.2.records "app_2" (idempotencyHash retryStore "app_2" "key-1")).map (·.expiresAt))) =
        some (false, [1700086400000000]) := by
    decide +kernel
  obtain ⟨q, replay, db', hp, hresult⟩ := accepted_of_eval hrun
  simp only [Prod.mk.injEq] at hresult
  obtain ⟨rfl, hexpires⟩ := hresult
  refine ⟨q, db', hp, fun r hr => ?_⟩
  have hmem := mem_map_of_mem (f := fun r => r.expiresAt) hr
  rw [hexpires, mem_singleton] at hmem
  omega

/-- The target is removed before the retry. -/
def removeTarget : List PublishOp := [.configure [sampleApplication "app_2"] (by decide) []]

/-- What the retry reads when the rule has another target. -/
def reroutedReads (db : EventDb) : Reads :=
  routedReads [⟨"app_3", true⟩] (findPublication retryStore "app_2" "key-1" 1700000001000000 db)

end RelayHub.Events
