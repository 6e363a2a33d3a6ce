import RelayHub.Events.Publish
import RelayHub.Queue.System

/-! # RelayHub events — what a publication does

One lemma for each stage of `publish` says everything the stage can do, so that the results below never
unfold it again: `insertSinks_ok` for the deliveries and their outbox rows, `insertPublication_ok` for the
inserts of the transaction, `makePublication_ok` for the publication the service builds, and
`publish_cases` for the whole call. -/

namespace RelayHub.Events

open List Queue Delivery

variable {E : StoreEnv} {o : EventOptions} {reads : Reads} {source key : String} {input : PublishRequest}
  {clock : Int} {db db' : EventDb} {e : Event} {p q : Publication} {retention : EventRetention}
  {callback : String → Bool}

/-! ## Deliveries and outbox rows -/

/-- The outbox id and the payload of a delivery. -/
def IsPayload (E : StoreEnv) (e : Event) (n : NewDelivery) (x : String × String) : Prop :=
  x.1 = (outboxIdentities E.digests.sha256 n.deliveryId).1 ∧ outboxPayload e n.deliveryId = some x.2

/-- `db'` has the deliveries `ns` of the event `e` in addition to those of `db`. -/
structure Inserted (E : StoreEnv) (e : Event) (ns : List NewDelivery) (db db' : EventDb) : Prop where
  deliveries : db'.delivery.deliveries = db.delivery.deliveries ++ ns.map NewDelivery.row
  outbox : db'.delivery.outbox = db.delivery.outbox ++ ns.map (NewDelivery.outboxRow E.digests.sha256)
  payloads : ∃ xs, db'.payloads = db.payloads ++ xs ∧ List.Forall₂ (IsPayload E e) ns xs
  /-- No stored delivery has the id of a new one. -/
  fresh : ∀ n ∈ ns, ∀ d ∈ db.delivery.deliveries, d.id ≠ n.deliveryId
  ids : (ns.map NewDelivery.deliveryId).Nodup
  /-- No stored outbox row has the id of a new one, or is of a new delivery. -/
  outboxFresh : ∀ n ∈ ns, ∀ o ∈ db.delivery.outbox,
    o.id ≠ (outboxIdentities E.digests.sha256 n.deliveryId).1 ∧ o.deliveryId ≠ n.deliveryId
  outboxIds : (ns.map fun n => (outboxIdentities E.digests.sha256 n.deliveryId).1).Nodup

theorem insertDeliveryAndOutbox_ok {sha256 : String → String} {n : NewDelivery} {d d' : DeliveryDb}
    (h : insertDeliveryAndOutbox sha256 n d = .ok d') :
    d'.deliveries = d.deliveries ++ [n.row] ∧ d'.outbox = d.outbox ++ [n.outboxRow sha256] ∧
      (∀ x ∈ d.deliveries, x.id ≠ n.deliveryId) ∧
      ∀ o ∈ d.outbox, o.id ≠ (outboxIdentities sha256 n.deliveryId).1 ∧ o.deliveryId ≠ n.deliveryId := by
  unfold insertDeliveryAndOutbox at h
  split at h
  · cases h
  next hclash =>
  split at h
  · cases h
  next hoclash =>
  cases h
  refine ⟨rfl, rfl, fun x hx heq => hclash (any_eq_true.mpr ⟨x, hx, ?_⟩), fun o ho => ⟨?_, ?_⟩⟩
  · simp [DeliveryRow.clashes, NewDelivery.row, heq]
  · intro heq
    refine hoclash (any_eq_true.mpr ⟨o, ho, ?_⟩)
    simp [OutboxRow.clashes, NewDelivery.outboxRow, heq]
  · intro heq
    refine hoclash (any_eq_true.mpr ⟨o, ho, ?_⟩)
    simp [OutboxRow.clashes, NewDelivery.outboxRow, heq]

theorem insertSink_ok {n : NewDelivery} (h : insertSink E e n db = .ok db') :
    db'.queue = db.queue ∧ Inserted E e [n] db db' := by
  unfold insertSink at h
  split at h
  · cases h
  split at h
  · cases h
  split at h
  · cases h
  split at h
  · cases h
  next hpayload =>
  split at h
  · cases h
  next hins =>
  cases h
  obtain ⟨hd, ho, hfresh, hofresh⟩ := insertDeliveryAndOutbox_ok hins
  exact ⟨rfl,
    { deliveries := hd
      outbox := ho
      payloads := ⟨_, rfl, .cons ⟨rfl, hpayload⟩ .nil⟩
      fresh := by simpa using hfresh
      ids := by simp
      outboxFresh := by simpa using hofresh
      outboxIds := by simp }⟩

theorem Inserted.trans {ns ms : List NewDelivery} {db'' : EventDb} (h : Inserted E e ns db db')
    (h' : Inserted E e ms db' db'') : Inserted E e (ns ++ ms) db db'' where
  deliveries := by rw [h'.deliveries, h.deliveries, map_append, append_assoc]
  outbox := by rw [h'.outbox, h.outbox, map_append, append_assoc]
  payloads := by
    obtain ⟨xs, hxs, hall⟩ := h.payloads
    obtain ⟨ys, hys, hall'⟩ := h'.payloads
    exact ⟨xs ++ ys, by rw [hys, hxs, append_assoc], rel_append hall hall'⟩
  fresh := by
    intro n hn d hd
    rcases mem_append.mp hn with hn | hn
    · exact h.fresh n hn d hd
    · exact h'.fresh n hn d (by rw [h.deliveries]; exact mem_append_left _ hd)
  ids := by
    rw [map_append, nodup_append]
    refine ⟨h.ids, h'.ids, forall_mem_map.mpr fun n hn => forall_mem_map.mpr fun m hm => ?_⟩
    have hrow : n.row ∈ db'.delivery.deliveries := by
      rw [h.deliveries]
      exact mem_append_right _ (mem_map_of_mem hn)
    exact h'.fresh m hm n.row hrow
  outboxFresh := by
    intro n hn o ho
    rcases mem_append.mp hn with hn | hn
    · exact h.outboxFresh n hn o ho
    · exact h'.outboxFresh n hn o (by rw [h.outbox]; exact mem_append_left _ ho)
  outboxIds := by
    rw [map_append, nodup_append]
    refine ⟨h.outboxIds, h'.outboxIds, forall_mem_map.mpr fun n hn => forall_mem_map.mpr fun m hm => ?_⟩
    have hrow : n.outboxRow E.digests.sha256 ∈ db'.delivery.outbox := by
      rw [h.outbox]
      exact mem_append_right _ (mem_map_of_mem hn)
    exact (h'.outboxFresh m hm _ hrow).1

theorem insertSinks_ok {ns : List NewDelivery} (h : insertSinks E e ns db = .ok db') :
    db'.queue = db.queue ∧ Inserted E e ns db db' := by
  induction ns generalizing db with
  | nil =>
    cases h
    exact ⟨rfl,
      { deliveries := by simp
        outbox := by simp
        payloads := ⟨[], by simp, .nil⟩
        fresh := by simp
        ids := by simp
        outboxFresh := by simp
        outboxIds := by simp }⟩
  | cons n ns ih =>
    unfold insertSinks at h
    split at h
    · cases h
    next hn =>
    obtain ⟨hq, hins⟩ := insertSink_ok hn
    obtain ⟨hq', hins'⟩ := ih h
    exact ⟨hq'.trans hq, hins.trans hins'⟩

/-! ## The transaction -/

/-- What `validatePublication` has checked, apart from the lengths. -/
structure Validated (p : Publication) : Prop where
  id : p.event.id ≠ ""
  type : p.event.type ≠ ""
  source : p.event.sourceAppId ≠ ""
  targets : p.event.targetAppIds ≠ []
  data : jsonObject p.event.data = true
  target : ∀ t ∈ p.event.targetAppIds, t ≠ ""
  distinct : p.event.targetAppIds.Nodup
  job : ∀ j ∈ p.jobs, j.id ≠ "" ∧ j.eventId = p.event.id ∧ j.sourceAppId = p.event.sourceAppId ∧
    j.targetAppId ∈ p.event.targetAppIds
  jobTargets : (p.jobs.map Job.targetAppId).Nodup

theorem validatePublication_ok (h : validatePublication p key retention = true) : Validated p := by
  simp only [validatePublication, Bool.and_eq_true, decide_eq_true_eq, Bool.not_eq_true',
    all_eq_true, isEmpty_eq_false_iff, contains_iff_mem] at h
  obtain ⟨⟨⟨⟨⟨⟨⟨⟨⟨⟨⟨⟨-, hid⟩, htype⟩, hsource⟩, htargets⟩, hdata⟩, -⟩, -⟩, -⟩, htarget⟩, hdistinct⟩, hjob⟩, hjobs⟩ := h
  refine ⟨hid, htype, hsource, htargets, hdata, htarget, hdistinct, fun j hj => ?_, hjobs⟩
  obtain ⟨⟨⟨hjid, hevent⟩, hjsource⟩, hjtarget⟩ := hjob j hj
  exact ⟨hjid, hevent, hjsource, hjtarget⟩

/-- What `insertPublication` does to the tables. -/
structure Committed (E : StoreEnv) (p : Publication) (retention : EventRetention) (db db' : EventDb) :
    Prop where
  queue : publishQueue E.digests (queuePublication p.event retention) db.queue = .ok db'.queue
  sinks : ∃ policies, lockTargetPolicies p.event.targetAppIds db = .ok policies ∧
    Inserted E p.event (newDeliveries E p.event policies (callbackJobs policies p.jobs)) db db'

theorem insertPublication_ok {hash : String} (h : insertPublication E p hash retention db = .ok (q, db')) :
    q.event = p.event ∧ Committed E p retention db db' := by
  unfold insertPublication at h
  split at h
  · cases h
  next policies hlock =>
  dsimp only at h
  split at h
  · cases h
  split at h
  · cases h
  next queue hqueue =>
  split at h
  · cases h
  next db₁ hsinks =>
  split at h
  · cases h
  cases h
  obtain ⟨hq, hins⟩ := insertSinks_ok hsinks
  refine ⟨rfl, ?_, policies, hlock, ?_⟩
  · show publishQueue _ _ _ = .ok db₁.queue
    rw [hq]
    exact hqueue
  · exact { hins with }

/-- A publication replays a stored one and changes nothing but expired records, or commits. -/
theorem publishEvent_cases {replay : Bool} (h : publishEvent E p key retention clock db = .ok ((q, replay), db')) :
    replay = true ∧ db'.queue = db.queue ∧ db'.delivery = db.delivery ∧ db'.payloads = db.payloads ∨
      replay = false ∧ q.event = p.event ∧ validatePublication p key retention = true ∧
        Committed E p retention db db' := by
  unfold publishEvent at h
  split at h
  · cases h
  next hvalid =>
  dsimp only at h
  split at h
  · cases h
    exact .inl ⟨rfl, rfl, rfl, rfl⟩
  · unfold Except.map at h
    split at h
    · cases h
    next hins =>
    cases h
    obtain ⟨hevent, hqueue, policies, hlock, hsinks⟩ := insertPublication_ok hins
    exact .inr ⟨rfl, hevent, by simpa using hvalid, hqueue, policies, hlock, { hsinks with }⟩

/-! ## The service -/

/-- How the service builds a publication. -/
structure Built (E : StoreEnv) (o : EventOptions) (reads : Reads) (source : String)
    (input : PublishRequest) (p : Publication) : Prop where
  eventId : o.newId 0 "evt_" = some p.event.id
  type : p.event.type = Text.trimSpace input.type
  sourceAppId : p.event.sourceAppId = source
  data : p.event.data = Text.trimSpace input.data
  createdAt : p.event.createdAt = o.now
  queue : queueEvent E o.now input.queue = some p.event.queue
  targets : ∃ ts ts', requestTargets o reads input = .ok ts ∧ trimTargets [] ts = some ts' ∧
    p.event.targetAppIds = ts'.insertionSort (· ≤ ·)

theorem makePublication_ok {targets ts ts' : List String} (hts : requestTargets o reads input = .ok ts)
    (hts' : trimTargets [] ts = some ts') (htargets : targets = ts'.insertionSort (· ≤ ·))
    (h : makePublication E o source input targets callback = .ok p) : Built E o reads source input p := by
  unfold makePublication at h
  split at h
  · cases h
  next hid =>
  split at h
  · cases h
  next queue hqueue =>
  split at h
  · cases h
  cases h
  exact
    { eventId := hid
      type := rfl
      sourceAppId := rfl
      data := rfl
      createdAt := rfl
      queue := hqueue
      targets := ⟨ts, ts', hts, hts', htargets⟩ }

/-- An accepted request replays a stored publication, or its publication commits. -/
theorem publish_cases {replay : Bool} (h : publish E o reads source input key clock db = .ok ((q, replay), db')) :
    replay = true ∧ db'.queue = db.queue ∧ db'.delivery = db.delivery ∧ db'.payloads = db.payloads ∨
      replay = false ∧ validRequest source input key = true ∧ ∃ p, Built E o reads source input p ∧
        q.event = p.event ∧ validatePublication p key (normalizeRetention o.retention) = true ∧
        Committed E p (normalizeRetention o.retention) db db' := by
  unfold publish at h
  split at h
  · cases h
  next hvalid =>
  split at h
  · cases h
  next hts =>
  split at h
  · cases h
  next hts' =>
  split at h
  · cases h
    exact .inl ⟨rfl, rfl, rfl, rfl⟩
  · split at h
    · cases h
    split at h
    · cases h
    next p hp =>
    split at h
    · cases h
    next hr =>
    cases h
    have hbuilt := makePublication_ok hts hts' rfl hp
    rcases publishEvent_cases hr with hreplay | ⟨hfirst, hevent, hpub, hdone⟩
    · exact .inl hreplay
    · exact .inr ⟨hfirst, by simpa using hvalid, p, hbuilt, hevent, hpub, hdone⟩
  · cases h

/-! ## A small publication

The concrete requests below the theorems go from `app_2` to `app_1`, which has the subscription
`sampleSubscription`. The digests are the real ones on the ids of those requests. -/

def sampleStore : StoreEnv where
  digests :=
    { sampleDigests with
      sha256 := fun s =>
        if s = "outbox\x00job_1" then "5eb4cd3ef9ceec12f7ac445b5420d66c665f1b21cebe8bd78312dd34872833f9"
        else if s = "app_2\x00key-1" then "dac8d7d8e8893f7e03b7802a7864e9b5dcc71bbcab42eb78def45fb79b100d73"
        else "sha256 " ++ s }
  text s := !s.toList.contains '\x00'
  json s := (Json.decode s.toList).isSome
  jsonb s := (Json.decode s.toList).isSome

def sampleApplication (id : String) : Application where
  id := id
  enabled := true
  deliveryMode := .websocket
  callbackURL := none

/-- Ids `evt_1` and `job_1`, and no retention configured. -/
def sampleOptions (now : Int) : EventOptions where
  now := now
  newId k kind := some (kind ++ toString (max k 1))
  hasRouter := false
  retention := { event := 0, idempotency := 0 }

def sampleReads : Reads where
  rules := .ok []
  publication := .error .notFound
  application id := .ok (sampleApplication id)

def sampleDb (subscriptions : List SubscriptionRow) : EventDb where
  applications := [sampleApplication "app_1", sampleApplication "app_2"]
  queue := { subscriptions }

def sampleRequest (queue : Option QueuePublish) : PublishRequest where
  type := "order.created"
  targetAppIds := ["app_1"]
  data := "\x7b\"order\": 1\x7d"
  queue := queue

/-- A request of which something can be evaluated was accepted. -/
theorem accepted_of_eval {β : Type} {result : Except ServiceError ((Publication × Bool) × EventDb)}
    {f : (Publication × Bool) × EventDb → β} {b : β} (h : result.toOption.map f = some b) :
    ∃ q replay db', result = .ok ((q, replay), db') ∧ f ((q, replay), db') = b := by
  cases result with
  | error => cases h
  | ok r => exact ⟨r.1.1, r.1.2, r.2, rfl, Option.some.inj h⟩

end RelayHub.Events
