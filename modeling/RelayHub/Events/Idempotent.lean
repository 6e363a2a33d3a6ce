import RelayHub.Events.Concurrent

/-! # RelayHub events — publishing is atomic and idempotent

A call of `PublishEvent` that fails leaves nothing. One that commits leaves the row of its event, the deliveries of
the sinks that its targets had enabled and one outbox row for each (`Fanout`), and they stay. The calls of one key
are serialised by their lock, so while the record of the key is unexpired one of them publishes and the others get
the stored copy (`publish_once`). -/

namespace RelayHub.Events

open List Queue Delivery PublishCall NewDelivery

/-! ## What a commit stores -/

/-- The constraints of the schema that publishing rests on: application ids are a primary key, and a delivery
refers to an event. -/
structure Constraints (db : EventDb) : Prop where
  applications : (db.applications.map (·.id)).Nodup
  deliveries : ∀ d ∈ db.delivery.deliveries, ∃ e ∈ db.queue.events, e.id = d.eventId

/-- There is one row of the event; for each of its targets the deliveries of the sinks that `applications` enable
for it, and no others; and for each delivery one outbox row, of generation 1, with its id and the event. -/
structure Fanout (applications : List Application) (e : Event) (db : EventDb) : Prop where
  event : (db.queue.events.filter fun x => decide (x.id = e.id)).length = 1
  targets : ∀ d ∈ db.delivery.deliveries, d.eventId = e.id → d.targetAppId ∈ e.targetAppIds
  sinks : ∀ target ∈ e.targetAppIds, ∃ a ∈ applications, a.id = target ∧ a.enabled = true ∧
    (db.delivery.deliveries.filter fun d => d.eventId = e.id && d.targetAppId = target).map (·.sink) =
      enabledSinks a
  outbox : ∀ d ∈ db.delivery.deliveries, d.eventId = e.id →
    ∃ o, (db.delivery.outbox.filter fun o => decide (o.deliveryId = d.id)) = [o] ∧ o.generation = 1 ∧
      o.eventId = e.id ∧ o.payload = ⟨d.id, 1, e.id, (marshal e.json).getD ""⟩

variable {s s' : PublishState} {op : PublishOp} {out : PublishOut}

section Fanout

variable {E : StoreEnv} {db db' : EventDb}

theorem publishQueue_events {D : Digests} {p : QueuePublication} {db db' : QueueDb}
    (h : publishQueue D p db = .ok db') :
    (∀ e ∈ db.events, e.id ≠ p.eventId) ∧ db'.events = db.events ++ [publishedEvent p] := by
  unfold publishQueue at h
  split at h
  · cases h
  next hfresh =>
  refine ⟨fun e he hid => hfresh (any_eq_true.mpr ⟨e, he, decide_eq_true hid⟩), ?_⟩
  split at h
  · cases h
  dsimp only at h
  split at h
  · cases h
  · cases h
    unfold insertDedupKeys dropExpiredDedupKeys
    split <;> rfl

variable {policies : List Application} {e : Event}

theorem lockTargetPolicies_find {targets : List String} (hids : (db.applications.map (·.id)).Nodup)
    (h : lockTargetPolicies targets db = .ok policies) {target : String} (ht : target ∈ targets) :
    ∃ a ∈ db.applications, a.id = target ∧ a.enabled = true ∧ policies.find? (·.id = target) = some a := by
  unfold lockTargetPolicies at h
  dsimp only at h
  split at h
  · cases h
  next hlength =>
  split at h
  · cases h
  cases h
  set policies := db.applications.filter fun a => targets.contains a.id && a.enabled
  -- the policies are as many as the targets, so no target is left out
  have hnd : (policies.map (·.id)).Nodup := (filter_sublist.map _).nodup hids
  have hsub : policies.map (·.id) ⊆ targets := by
    intro id hid
    obtain ⟨a, ha, rfl⟩ := mem_map.mp hid
    have hkept := (mem_filter.mp ha).2
    rw [Bool.and_eq_true] at hkept
    exact contains_iff_mem.mp hkept.1
  have hperm : (policies.map (·.id)).Perm targets :=
    (subperm_of_subset hnd hsub).perm_of_length_le (by rw [length_map]; exact (not_not.mp hlength).ge)
  obtain ⟨a, ha, hid⟩ := mem_map.mp (hperm.mem_iff.mpr ht)
  have hkept := (mem_filter.mp ha).2
  rw [Bool.and_eq_true] at hkept
  refine ⟨a, (mem_filter.mp ha).1, hid, hkept.2, ?_⟩
  cases hfind : policies.find? (·.id = target) with
  | none => exact absurd hid (by simpa using find?_eq_none.mp hfind a ha)
  | some b =>
    have hb : b.id = target := by simpa using find?_some hfind
    rw [Table.eq_of_key_eq hnd (mem_of_find?_eq_some hfind) ha (hb.trans hid.symm)]

theorem newDeliveries_cons (e : Event) (policies : List Application) (job : Job) (jobs : List Job) :
    newDeliveries E e policies (job :: jobs) = newDeliveries E e policies [job] ++ newDeliveries E e policies jobs := by
  simp [newDeliveries]

/-- A new delivery is of the event, and goes to the target of a job. -/
theorem mem_newDeliveries {jobs : List Job} {n : NewDelivery} (h : n ∈ newDeliveries E e policies jobs) :
    n.eventId = e.id ∧ n.event = (marshal e.json).getD "" ∧ ∃ job ∈ jobs, n.targetAppId = job.targetAppId := by
  obtain ⟨job, hjob, hn⟩ := mem_flatMap.mp h
  split at hn
  · cases hn
  · obtain ⟨index, hindex, rfl⟩ := mem_mapIdx.mp hn
    exact ⟨rfl, rfl, job, hjob, rfl⟩

/-- The new deliveries of a target are those of its enabled sinks. -/
theorem newDeliveries_sinks {jobs : List Job} (hnd : (jobs.map Job.targetAppId).Nodup) {job : Job}
    (hjob : job ∈ jobs) {a : Application} (ha : policies.find? (·.id = job.targetAppId) = some a) :
    ((newDeliveries E e policies jobs).filter fun n => decide (n.targetAppId = job.targetAppId)).map (·.sink) =
      enabledSinks a := by
  induction jobs with
  | nil => cases hjob
  | cons j jobs ih =>
    rw [map_cons, nodup_cons] at hnd
    have htarget : ∀ n ∈ newDeliveries E e policies [j], n.targetAppId = j.targetAppId :=
      fun n hn => by
        obtain ⟨-, -, j', hj', heq⟩ := mem_newDeliveries hn
        rw [heq, mem_singleton.mp hj']
    rw [newDeliveries_cons, filter_append, map_append]
    rcases mem_cons.mp hjob with rfl | hjob
    · -- the other jobs have other targets
      have hrest : (newDeliveries E e policies jobs).filter (fun n => decide (n.targetAppId = job.targetAppId)) =
          [] := by
        refine filter_eq_nil_iff.mpr fun n hn heq => hnd.1 ?_
        obtain ⟨-, -, j', hj', hn'⟩ := mem_newDeliveries hn
        rw [← of_decide_eq_true heq, hn']
        exact mem_map_of_mem hj'
      rw [hrest, filter_eq_self.mpr fun n hn => decide_eq_true (htarget n hn), map_nil, append_nil]
      exact ext_getElem (by simp [newDeliveries, ha]) fun i hi hi' => by simp [newDeliveries, ha, newDelivery]
    · have hfirst : (newDeliveries E e policies [j]).filter (fun n => decide (n.targetAppId = job.targetAppId)) =
          [] := by
        refine filter_eq_nil_iff.mpr fun n hn heq => hnd.1 ?_
        rw [← htarget n hn, of_decide_eq_true heq]
        exact mem_map_of_mem hjob
      rw [hfirst, ih hnd.2 hjob]
      rfl

variable {retention : EventRetention} {p q : Publication} {hash : String}

theorem jobTargets_perm {key : String} (h : validatePublication p key retention = true) :
    (p.jobs.map Job.targetAppId).Perm p.event.targetAppIds := by
  have hvalid := validatePublication_ok h
  have hlength : p.jobs.length = p.event.targetAppIds.length := by
    simp only [validatePublication, Bool.and_eq_true, decide_eq_true_eq] at h
    exact h.1.1.1.1.2
  have hsub : p.jobs.map Job.targetAppId ⊆ p.event.targetAppIds := by
    intro target ht
    obtain ⟨j, hj, rfl⟩ := mem_map.mp ht
    exact (hvalid.job j hj).2.2.2
  refine (subperm_of_subset hvalid.jobTargets hsub).perm_of_length_le ?_
  rw [length_map, hlength]

section

variable (h : insertPublication E p hash retention db = .ok (q, db'))

include h

/-- **What a commit stores.** -/
theorem fanout_committed {key : String} (hdb : Constraints db)
    (hvalidated : validatePublication p key retention = true) : Fanout db.applications p.event db' := by
  obtain ⟨-, hqueue, policies, hlock, hins⟩ := insertPublication_ok h
  obtain ⟨hfresh, hevents⟩ := publishQueue_events hqueue
  have hvalid := validatePublication_ok hvalidated
  set jobs := callbackJobs policies p.jobs with hjobs
  have hjobTargets : jobs.map Job.targetAppId = p.jobs.map Job.targetAppId := by
    rw [hjobs, callbackJobs, map_map]
    rfl
  -- the event is new, so no delivery refers to it yet
  have hnone : ∀ d ∈ db.delivery.deliveries, d.eventId ≠ p.event.id := by
    intro d hd heq
    obtain ⟨e, he, hid⟩ := hdb.deliveries d hd
    exact hfresh e he (hid.trans heq)
  have hnew : ∀ d ∈ db'.delivery.deliveries, d.eventId = p.event.id →
      ∃ n ∈ newDeliveries E p.event policies jobs, n.row = d := by
    intro d hd heq
    rw [hins.deliveries] at hd
    rcases mem_append.mp hd with hd | hd
    · exact absurd heq (hnone d hd)
    · exact mem_map.mp hd
  refine ⟨?_, fun d hd heq => ?_, fun target ht => ?_, fun d hd heq => ?_⟩
  · have hold : (db.queue.events.filter fun x => decide (x.id = p.event.id)) = [] :=
      filter_eq_nil_iff.mpr fun e he heq => hfresh e he (of_decide_eq_true heq)
    rw [hevents, filter_append, hold]
    simp [publishedEvent, queuePublication]
  · obtain ⟨n, hn, rfl⟩ := hnew d hd heq
    obtain ⟨-, -, job, hjob, htarget⟩ := mem_newDeliveries hn
    have hmem : job.targetAppId ∈ p.jobs.map Job.targetAppId := hjobTargets ▸ mem_map_of_mem hjob
    obtain ⟨j, hj, hjtarget⟩ := mem_map.mp hmem
    show n.targetAppId ∈ p.event.targetAppIds
    rw [htarget, ← hjtarget]
    exact (hvalid.job j hj).2.2.2
  · obtain ⟨a, ha, hid, henabled, hfind⟩ := lockTargetPolicies_find hdb.applications hlock ht
    obtain ⟨job, hjob, rfl⟩ := mem_map.mp (hjobTargets ▸ (jobTargets_perm hvalidated).mem_iff.mpr ht)
    refine ⟨a, ha, hid, henabled, ?_⟩
    have hold : (db.delivery.deliveries.filter fun d =>
        d.eventId = p.event.id && d.targetAppId = job.targetAppId) = [] := by
      refine filter_eq_nil_iff.mpr fun d hd heq => hnone d hd ?_
      rw [Bool.and_eq_true] at heq
      exact of_decide_eq_true heq.1
    have hrows : (newDeliveries E p.event policies jobs).filter
        ((fun d => d.eventId = p.event.id && d.targetAppId = job.targetAppId) ∘ row) =
        (newDeliveries E p.event policies jobs).filter fun n => decide (n.targetAppId = job.targetAppId) := by
      refine filter_congr fun n hn => ?_
      simp [row, (mem_newDeliveries hn).1]
    rw [hins.deliveries, filter_append, hold, nil_append, filter_map, hrows, map_map]
    exact newDeliveries_sinks (hjobTargets ▸ hvalid.jobTargets) hjob hfind
  · obtain ⟨n, hn, rfl⟩ := hnew d hd heq
    obtain ⟨hevent, htext, -⟩ := mem_newDeliveries hn
    refine ⟨n.outboxRow E.digests.sha256, ?_, rfl, hevent, ?_⟩
    · have hold : (db.delivery.outbox.filter fun o => decide (o.deliveryId = n.row.id)) = [] :=
        filter_eq_nil_iff.mpr fun o ho heq => (hins.outboxFresh n hn o ho).2 (of_decide_eq_true heq)
      rw [hins.outbox, filter_append, hold, nil_append]
      have hids : (((newDeliveries E p.event policies jobs).map
          (outboxRow E.digests.sha256)).map OutboxRow.deliveryId).Nodup := by
        rw [map_map]
        exact hins.ids
      exact Table.filter_key_eq_singleton hids (mem_map_of_mem hn)
    · show Delivery.OutboxEnvelope.mk n.deliveryId 1 n.eventId n.event = _
      rw [hevent, htext]
      rfl

/-- The rows of an event stay as they are when another publication commits. -/
theorem Fanout.committed {applications : List Application} (hfan : Fanout applications e db) :
    Fanout applications e db' := by
  obtain ⟨-, hqueue, policies, -, hins⟩ := insertPublication_ok h
  obtain ⟨hfresh, hevents⟩ := publishQueue_events hqueue
  have hother : p.event.id ≠ e.id := by
    obtain ⟨x, hx⟩ := length_eq_one_iff.mp hfan.event
    obtain ⟨hmem, hid⟩ := mem_filter.mp (hx ▸ mem_singleton_self x)
    exact fun heq => hfresh x hmem ((of_decide_eq_true hid).trans heq.symm)
  set new := newDeliveries E p.event policies (callbackJobs policies p.jobs)
  have hnew : ∀ d ∈ new.map row, d.eventId ≠ e.id :=
    forall_mem_map.mpr fun _ hn => (mem_newDeliveries hn).1.trans_ne hother
  have hold : ∀ d ∈ db'.delivery.deliveries, d.eventId = e.id → d ∈ db.delivery.deliveries := by
    intro d hd heq
    rw [hins.deliveries] at hd
    exact (mem_append.mp hd).resolve_right fun hd => hnew d hd heq
  refine ⟨?_, fun d hd heq => hfan.targets d (hold d hd heq) heq, fun target ht => ?_, fun d hd heq => ?_⟩
  · have hnone : ¬ (publishedEvent (queuePublication p.event retention)).id = e.id := hother
    rw [hevents, filter_append, filter_cons_of_neg (by simpa using hnone), filter_nil, append_nil]
    exact hfan.event
  · obtain ⟨a, ha, hid, henabled, hsinks⟩ := hfan.sinks target ht
    refine ⟨a, ha, hid, henabled, ?_⟩
    have hnone : ((new.map row).filter fun d => d.eventId = e.id && d.targetAppId = target) = [] := by
      refine filter_eq_nil_iff.mpr fun d hd heq => hnew d hd ?_
      rw [Bool.and_eq_true] at heq
      exact of_decide_eq_true heq.1
    rw [hins.deliveries, filter_append, hnone, append_nil]
    exact hsinks
  · obtain ⟨o, hrow, hrest⟩ := hfan.outbox d (hold d hd heq) heq
    refine ⟨o, ?_, hrest⟩
    -- the new outbox rows are of new deliveries
    have hnone : ((new.map (outboxRow E.digests.sha256)).filter fun o => decide (o.deliveryId = d.id)) = [] := by
      refine filter_eq_nil_iff.mpr fun o ho hid => ?_
      obtain ⟨n, hn, rfl⟩ := mem_map.mp ho
      exact hins.fresh n hn d (hold d hd heq) (of_decide_eq_true hid).symm
    rw [hins.outbox, filter_append, hnone, append_nil]
    exact hrow

theorem Constraints.committed (hdb : Constraints db) : Constraints db' := by
  obtain ⟨-, -, -, happlications, -⟩ := insertPublication_record h
  obtain ⟨-, hqueue, policies, -, hins⟩ := insertPublication_ok h
  obtain ⟨-, hevents⟩ := publishQueue_events hqueue
  refine ⟨happlications ▸ hdb.applications, fun d hd => ?_⟩
  rw [hins.deliveries] at hd
  rw [hevents]
  rcases mem_append.mp hd with hd | hd
  · obtain ⟨e, he, hid⟩ := hdb.deliveries d hd
    exact ⟨e, mem_append_left _ he, hid⟩
  · obtain ⟨n, hn, rfl⟩ := mem_map.mp hd
    exact ⟨_, mem_append_right _ mem_cons_self, (mem_newDeliveries hn).1.symm⟩

end

theorem Fanout.step {applications : List Application} (h : Fanout applications e s.db)
    (hcase : PublishCase E s op out s') : Fanout applications e s'.db := by
  have hdrop : ∀ c, Fanout applications e (dropExpired E c s.db) := fun c =>
    { h with }
  cases hcase with
  | idle | rejected | opened | failed => exact h
  | replayed _ x => exact hdrop x.call
  | committed _ x _ _ p db' hins => exact (hdrop x.call).committed hins
  | configured => exact { h with }

theorem Constraints.step (h : Constraints s.db) (hcase : PublishCase E s op out s') : Constraints s'.db := by
  have hdrop : ∀ c, Constraints (dropExpired E c s.db) := fun c => ⟨h.applications, h.deliveries⟩
  cases hcase with
  | idle | rejected | opened | failed => exact h
  | replayed _ x => exact hdrop x.call
  | committed _ x _ _ p db' hins => exact (hdrop x.call).committed hins
  | configured applications hids => exact ⟨hids, h.deliveries⟩

theorem fanout_step {calls : List PublishCall} (hdb : Constraints s.db) (hlock : LockInv E calls s)
    {c : PublishCall} (hcase : PublishCase E s op (.returned c (.ok (p, false))) s') :
    p.event = c.publication.event ∧ Fanout s.db.applications p.event s'.db := by
  cases hcase with
  | committed _ x hx _ _ db' hins =>
    obtain ⟨-, -, hevent, -⟩ := insertPublication_record hins
    have hdrop : Constraints (dropExpired E x.call s.db) := ⟨hdb.applications, hdb.deliveries⟩
    have hfan := fanout_committed hins hdrop (hlock.valid x hx)
    exact ⟨hevent, hevent ▸ hfan⟩

end Fanout

/-! ## Runs -/

section Runs

variable (E : StoreEnv) (db : EventDb) {calls : List PublishCall}

theorem LockInv.mono {E : StoreEnv} {calls' : List PublishCall} (h : LockInv E calls s) (hsub : calls ⊆ calls') :
    LockInv E calls' s :=
  ⟨h.locks, fun x hx => hsub (h.started x hx), h.valid⟩

theorem callsIn_concat (ops : List PublishOp) (op : PublishOp) :
    callsIn (ops ++ [op]) = callsIn ops ++ op.call.toList := by
  cases h : op.call <;> simp [callsIn, h]

theorem lockInv_run (ops : List PublishOp) : LockInv E (callsIn ops) ((publishers E).run ⟨db, []⟩ ops) := by
  induction ops using reverseRecOn with
  | nil => exact ⟨nodup_nil, fun x hx => (by cases hx), fun x hx => (by cases hx)⟩
  | append_singleton ops op ih =>
    rw [Mealy.run_concat, callsIn_concat]
    refine (ih.mono (subset_append_left _ _)).step (publishers_cases E _ op) fun c hc => ?_
    exact mem_append_right _ (Option.mem_toList.mpr hc)

/-- Every commit of a run is there at its end, with the sinks as they were when it committed. -/
theorem commits_run (hdb : Constraints db) (ops : List PublishOp) : Constraints ((publishers E).run ⟨db, []⟩ ops).db ∧
      ∀ t ∈ (publishers E).transitions ⟨db, []⟩ ops, ∀ c p, t.output = .returned c (.ok (p, false)) →
        p.event = c.publication.event ∧ Fanout t.pre.db.applications p.event ((publishers E).run ⟨db, []⟩ ops).db := by
  induction ops using reverseRecOn with
  | nil => exact ⟨hdb, fun t ht => (by cases ht)⟩
  | append_singleton ops op ih =>
    obtain ⟨hconstraints, hcommits⟩ := ih
    have hcase := publishers_cases E ((publishers E).run ⟨db, []⟩ ops) op
    rw [Mealy.run_concat, Mealy.transitions_concat]
    refine ⟨hconstraints.step hcase, fun t ht c p hout => ?_⟩
    rcases mem_append.mp ht with ht | ht
    · obtain ⟨hevent, hfan⟩ := hcommits t ht c p hout
      exact ⟨hevent, hfan.step hcase⟩
    · rw [mem_singleton.mp ht] at hout ⊢
      rw [show (publishers E).out _ op = _ from hout] at hcase
      exact fanout_step hconstraints (lockInv_run E db ops) hcase

/-- The call has the source and the key. -/
def PublishCall.isOf (source key : String) (c : PublishCall) : Bool := c.source = source && c.key = key

/-- The calls of the key are made in a time in which the records from before are expired, and the one that a call
of the key stores is not. No other key of the calls has the digest of this one. -/
structure Window (source key : String) (ops : List PublishOp) : Prop where
  collision : ∀ c ∈ callsIn ops, c.source = source → c.hash E = idempotencyHash E source key → c.key = key
  old : ∀ c ∈ callsIn ops, c.isOf source key = true →
    ∀ r ∈ db.records source (idempotencyHash E source key), r.expiresAt ≤ c.clock
  new : ∀ y ∈ successes (isOf source key) ((publishers E).transitions ⟨db, []⟩ ops), y.2.2 = false →
    ∀ c ∈ callsIn ops, c.isOf source key = true → c.clock < y.1.expiresAt

variable {E db} {source key : String} {ops : List PublishOp} {c : PublishCall}

theorem successes_concat (p : PublishCall → Bool) (ops : List PublishOp) (op : PublishOp) :
    successes p ((publishers E).transitions ⟨db, []⟩ (ops ++ [op])) =
      successes p ((publishers E).transitions ⟨db, []⟩ ops) ++
        (((publishers E).out ((publishers E).run ⟨db, []⟩ ops) op).success p).toList := by
  rw [Mealy.transitions_concat, successes, filterMap_append, filterMap_cons]
  cases ((publishers E).out ((publishers E).run ⟨db, []⟩ ops) op).success p <;> rfl

theorem Window.before {more : List PublishOp} (h : Window E db source key (ops ++ more)) :
    Window E db source key ops := by
  have hcalls : callsIn ops ⊆ callsIn (ops ++ more) := by
    rw [callsIn, callsIn, filterMap_append]
    exact subset_append_left _ _
  refine ⟨fun c hc => h.collision c (hcalls hc), fun c hc => h.old c (hcalls hc), fun y hy hflag c hc => ?_⟩
  refine h.new y ?_ hflag c (hcalls hc)
  rw [Mealy.transitions_append, successes, filterMap_append]
  exact mem_append_left _ hy

theorem isFor_of_isOf (h : c.isOf source key = true) : c.isFor E source (idempotencyHash E source key) = true := by
  simp only [isOf, Bool.and_eq_true, decide_eq_true_eq] at h
  exact isFor_iff.mpr ⟨h.1, by rw [PublishCall.hash, h.1, h.2]⟩

/-- On the calls of the run, the key and its digest say the same. -/
theorem Window.isFor_eq (h : Window E db source key ops) (hc : c ∈ callsIn ops) :
    c.isFor E source (idempotencyHash E source key) = c.isOf source key := by
  refine Bool.eq_iff_iff.mpr ⟨fun hfor => ?_, isFor_of_isOf⟩
  obtain ⟨hsource, hhash⟩ := isFor_iff.mp hfor
  simp [isOf, hsource, h.collision c hc hsource hhash]

theorem success_eq_some {p : PublishCall → Bool} {r : Publication × Bool} (h : out.success p = some (c, r)) :
    out = .returned c (.ok r) := by
  unfold PublishOut.success at h
  split at h
  · split at h
    · cases h
      rfl
    · cases h
  · cases h

/-- The tables change when a call succeeds, and when they are configured. -/
theorem PublishCase.atomic (h : PublishCase E s op out s') : (∃ c r, out = .returned c (.ok r)) ∨
      (∃ applications hids subscriptions, op = .configure applications hids subscriptions) ∨ s'.db = s.db := by
  cases h with
  | replayed | committed => exact .inl ⟨_, _, rfl⟩
  | configured => exact .inr (.inl ⟨_, _, _, rfl⟩)
  | _ => exact .inr (.inr rfl)

theorem success_congr (hlock : LockInv E calls s) (hcase : PublishCase E s op out s') {p q : PublishCall → Bool}
    (h : ∀ c ∈ calls, p c = q c) : out.success p = out.success q := by
  cases hcase with
  | replayed _ x hx | committed _ x hx => simp only [PublishOut.success, h x.call (hlock.started x hx)]
  | _ => rfl

theorem key_run (ops : List PublishOp) (h : Window E db source key ops) :
    KeyState E source (idempotencyHash E source key) (db.records source (idempotencyHash E source key))
      ((publishers E).run ⟨db, []⟩ ops)
      (successes (isOf source key) ((publishers E).transitions ⟨db, []⟩ ops)) := by
  induction ops using reverseRecOn with
  | nil => exact .unpublished rfl fun x hx => (by cases hx)
  | append_singleton ops op ih =>
    have hcase := publishers_cases E ((publishers E).run ⟨db, []⟩ ops) op
    have hcalls : callsIn (ops ++ [op]) = callsIn ops ++ op.call.toList := callsIn_concat ops op
    have hlock : LockInv E (callsIn (ops ++ [op])) ((publishers E).run ⟨db, []⟩ ops) :=
      (lockInv_run E db ops).mono (hcalls ▸ subset_append_left _ _)
    rw [Mealy.run_concat, successes_concat, ← success_congr hlock hcase fun c hc => h.isFor_eq hc]
    refine (ih h.before).step hlock hcase (fun c hc => ?_) (fun c hc hfor => ?_) fun y hy hflag c hc hfor => ?_
    · rw [hcalls]
      exact mem_append_right _ (Option.mem_toList.mpr hc)
    · exact h.old c hc (h.isFor_eq hc ▸ hfor)
    · refine h.new y ?_ hflag c hc (h.isFor_eq hc ▸ hfor)
      rw [successes_concat]
      exact mem_append_left _ hy

theorem unchanged_step {hash : String} {old : List IdempotencyRow} {L : List (PublishCall × Publication × Bool)}
    (hkey : KeyState E source hash old s L) (hlock : LockInv E calls s)
    (hnew : ∀ y ∈ L, y.2.2 = false → ∀ c ∈ calls, c.isFor E source hash = true → c.clock < y.1.expiresAt)
    {r : Except StoreError (Publication × Bool)} (hfor : c.isFor E source hash = true)
    (hcase : PublishCase E s op (.returned c r) s') : (∃ p, r = .ok (p, false)) ∨ s'.db = s.db := by
  cases hcase with
  | rejected | failed => exact .inr rfl
  | committed _ x _ _ p => exact .inl ⟨p, rfl⟩
  | replayed _ x hx q hfound =>
    cases hkey with
    | unpublished _ hnone => cases (hnone x hx hfor).symm.trans hfound
    | published c₀ p e rest _ _ hrecorded =>
      -- the one record of the key is not expired
      have hlive := hnew _ mem_cons_self rfl x.call (hlock.started x hx) hfor
      obtain ⟨hsource, hhash⟩ := isFor_iff.mp hfor
      have hkept : (dropExpired E x.call s.db).idempotency = s.db.idempotency := by
        refine filter_eq_self.mpr fun r hr => ?_
        rw [hsource, hhash]
        cases hmine : r.isFor source hash with
        | false => rfl
        | true =>
          have hmem : r ∈ s.db.records source hash := mem_filter.mpr ⟨hr, hmine⟩
          rw [hrecorded.records, mem_singleton] at hmem
          rw [hmem]
          simpa using hlive
      refine .inr ?_
      show { s.db with idempotency := (dropExpired E x.call s.db).idempotency } = s.db
      rw [hkept]

/-- **Publishing is atomic and idempotent.** Start from any database that meets the constraints, and let any number
of calls of `PublishEvent` for a source and a key, among any others and among changes of applications and
subscriptions, run in any order, while records of the key from before are expired and a new one is not. Then a
call that fails leaves the tables as they were. If calls of the key succeed, the first of them publishes and all
others replay: they return the stored copy of its publication, which has the same jobs and the same JSON, and
change nothing. Its event has one row; each target has the deliveries of the sinks that were enabled when the call
committed, and each delivery has one outbox row, of generation 1 and with its id and the event. -/
theorem publish_once (hdb : Constraints db) (ops : List PublishOp) (hwindow : Window E db source key ops) :
    (∀ t ∈ (publishers E).transitions ⟨db, []⟩ ops, (∃ c r, t.output = .returned c (.ok r)) ∨
      (∃ applications hids subscriptions, t.input = .configure applications hids subscriptions) ∨
      t.post.db = t.pre.db) ∧
    (successes (isOf source key) ((publishers E).transitions ⟨db, []⟩ ops) = [] ∨
      ∃ t ∈ (publishers E).transitions ⟨db, []⟩ ops, ∃ c p e rest, t.output = .returned c (.ok (p, false)) ∧
        successes (isOf source key) ((publishers E).transitions ⟨db, []⟩ ops) =
          (c, p, false) :: rest ∧
        p.event = c.publication.event ∧ p.event.stored = some e ∧ e.json = p.event.json ∧
        (∀ y ∈ rest, y.2 = (⟨e, p.jobs⟩, true)) ∧
        Fanout t.pre.db.applications p.event ((publishers E).run ⟨db, []⟩ ops).db) ∧
    ∀ t ∈ (publishers E).transitions ⟨db, []⟩ ops, ∀ c r, t.output = .returned c r →
      c.isOf source key = true → (∃ p, r = .ok (p, false)) ∨ t.post.db = t.pre.db := by
  refine ⟨fun t ht => ?_, ?_, fun t ht c r hout hof => ?_⟩
  · obtain ⟨as, bs, -, -, hout, hpost⟩ := (publishers E).exists_split_of_mem_transitions ht
    rw [hout, hpost]
    exact (publishers_cases E t.pre t.input).atomic
  · have hkey := key_run ops hwindow
    generalize hL : successes (isOf source key) ((publishers E).transitions ⟨db, []⟩ ops) = L at *
    cases hkey with
    | unpublished => exact .inl rfl
    | published c p e rest hevent hstored _ hrest =>
      obtain ⟨t, ht, hsuccess⟩ := mem_filterMap.mp (hL ▸ mem_cons_self : (c, p, false) ∈ successes _ _)
      have hout := success_eq_some hsuccess
      obtain ⟨-, hcommits⟩ := commits_run E db hdb ops
      exact .inr ⟨t, ht, c, p, e, rest, hout, rfl, hevent, hstored, stored_json hstored, hrest,
        (hcommits t ht c p hout).2⟩
  · obtain ⟨as, bs, rfl, hpre, hout', hpost⟩ := (publishers E).exists_split_of_mem_transitions ht
    have hbefore := hwindow.before
    have hcase := publishers_cases E t.pre t.input
    rw [← hout', ← hpost, hout, hpre] at hcase
    rw [hpre]
    refine unchanged_step (key_run as hbefore) (lockInv_run E db as) (fun y hy hflag c' hc' hfor => ?_)
      (isFor_of_isOf hof) hcase
    exact hbefore.new y hy hflag c' hc' (hbefore.isFor_eq hc' ▸ hfor)

end Runs

/-! ## A retry

Two calls with the key `key-1`; the second waits for the first and then finds its record, though the target was
disabled meanwhile. The work has a deduplication key, whose digest is not in the JSON of an event. -/

/-- The digest of the deduplication key `order-7`. -/
def sampleHash : String := "df8cf80227ec3237922df0ecd88385c546e4a31bdb8127b033f01e6f21f175df"

/-- The digests of the run are the real ones. -/
def retryStore : StoreEnv :=
  { sampleStore with
    digests :=
      { sampleStore.digests with
        sha256 := fun s =>
          if s = "app_1" then "d1437d2e5c547d465e30964f82b0f4cf16981729f764dc9e50b37da93609552e"
          else if s = "app_2\x00" ++ "dac8d7d8e8893f7e03b7802a7864e9b5dcc71bbcab42eb78def45fb79b100d73" then
            "4ca5971eb461568d0d9a38363e7d0826a0a85e886054f8d05c6fcc0ff8ac6c8f"
          else sampleStore.digests.sha256 s } }

def samplePublication (k : String) : Publication where
  event :=
    { id := "evt_" ++ k
      type := "order.created"
      sourceAppId := "app_2"
      targetAppIds := ["app_1"]
      data := "\x7b\x7d"
      createdAt := 1700000000000000000
      queue := some { availableAt := 1700000000000000000, metadata := "\x7b\x7d", dedupHash := sampleHash } }
  jobs := [⟨false, "job_" ++ k, "evt_" ++ k, "app_2", "app_1", 1700000000000000000⟩]

def sampleCall (k : String) : PublishCall where
  publication := samplePublication k
  key := "key-1"
  retention := normalizeRetention ⟨0, 0⟩
  clock := 1700000000000000

def retryRun : List PublishOp :=
  [.start 1 (sampleCall "1"), .start 2 (sampleCall "2"), .finish 1,
    .configure [{ sampleApplication "app_1" with enabled := false }, sampleApplication "app_2"] (by decide) [],
    .start 2 (sampleCall "2"), .finish 2]

def retryTransitions : List (Transition PublishState PublishOp PublishOut) :=
  (publishers retryStore).transitions ⟨sampleDb [], []⟩ retryRun

theorem constraints_sampleDb : Constraints (sampleDb []) := ⟨by decide, fun d hd => (by cases hd)⟩

theorem window_retry : Window retryStore (sampleDb []) "app_2" "key-1" retryRun where
  collision := by decide
  old := fun c _ _ r hr => (by cases hr)
  new := by decide +kernel

/-- The replay returns another publication than the first call: the digest of the deduplication key is gone. -/
theorem replay_drops_hash : Constraints (sampleDb []) ∧ Window retryStore (sampleDb []) "app_2" "key-1" retryRun ∧
    (successes (isOf "app_2" "key-1") retryTransitions).map
      (fun y => (y.2.2, y.2.1.event.id, y.2.1.event.queue.map (·.dedupHash))) =
        [(false, "evt_1", some sampleHash), (true, "evt_1", some "")] :=
  ⟨constraints_sampleDb, window_retry, by decide +kernel⟩

theorem publish_once_retry : ∃ t ∈ retryTransitions, ∃ c p e rest, t.output = .returned c (.ok (p, false)) ∧
      successes (isOf "app_2" "key-1") retryTransitions = (c, p, false) :: rest ∧
      (∀ y ∈ rest, y.2 = (⟨e, p.jobs⟩, true)) ∧
      Fanout t.pre.db.applications p.event ((publishers retryStore).run ⟨sampleDb [], []⟩ retryRun).db := by
  have hsome : successes (isOf "app_2" "key-1") retryTransitions ≠ [] := by
    intro hnil
    have hlength : (successes (isOf "app_2" "key-1") retryTransitions).length = 2 := by
      decide +kernel
    rw [hnil] at hlength
    cases hlength
  obtain ⟨-, hkey, -⟩ := publish_once constraints_sampleDb retryRun window_retry
  rcases hkey with hnil | ⟨t, ht, c, p, e, rest, hout, hlist, -, -, -, hrest, hfan⟩
  · exact absurd hnil hsome
  · exact ⟨t, ht, c, p, e, rest, hout, hlist, hrest, hfan⟩

end RelayHub.Events
