import Mathlib.Algebra.BigOperators.Group.List.Basic
import RelayHub.Events.Effects
import RelayHub.Stream.Frames

/-! # RelayHub streams — published events on a stream

The service accepts requests whose stored payload no stream session will send: a request with a `queue`
object gives the event a seventh field, the data may be larger than a frame, nest deeper or name a key
twice, the routing rules may give more than 100 targets, and ids may be longer than 128 bytes.
`published_streamed_iff` says for every accepted request which of its stream deliveries are sent. -/

namespace RelayHub.Stream

open List Json Events Delivery Text

variable {E : StoreEnv} {o : EventOptions} {reads : Events.Reads} {source key : String} {input : PublishRequest}
  {clock : Int} {db db' : EventDb} {p : Publication} {n : NewDelivery} {queue : Option QueuePublish}
  {event : Option QueueEvent}

/-! ## Stored payloads -/

/-- The payload of the outbox row of a delivery. -/
def storedPayload (E : StoreEnv) (db : EventDb) (deliveryId : String) : Option String :=
  (db.payloads.find? fun x => x.1 = (outboxIdentities E.digests.sha256 deliveryId).1).map Prod.snd

/-- `payloads` is a column of `outbox`: every payload is of a row. -/
def PayloadColumn (db : EventDb) : Prop := ∀ x ∈ db.payloads, ∃ row ∈ db.delivery.outbox, row.id = x.1

theorem find_payload {e : Event} {ns : List NewDelivery} {xs : List (String × String)}
    (hall : List.Forall₂ (IsPayload E e) ns xs)
    (hids : (ns.map fun n => (outboxIdentities E.digests.sha256 n.deliveryId).1).Nodup) (hn : n ∈ ns) :
    ∃ x, xs.find? (fun x => x.1 = (outboxIdentities E.digests.sha256 n.deliveryId).1) = some x ∧ IsPayload E e n x := by
  induction hall with
  | nil => cases hn
  | @cons m x ms xs hx _ ih =>
    rw [map_cons, nodup_cons] at hids
    rcases mem_cons.mp hn with rfl | hn
    · exact ⟨x, by simp [hx.1], hx⟩
    obtain ⟨y, hy, hpayload⟩ := ih hids.2 hn
    have hne : x.1 ≠ (outboxIdentities E.digests.sha256 n.deliveryId).1 := by
      rw [hx.1]
      intro heq
      exact hids.1 (mem_map.mpr ⟨n, hn, heq.symm⟩)
    exact ⟨y, by rw [find?_cons, decide_eq_false hne, hy], hpayload⟩

theorem storedPayload_inserted {e : Event} {ns : List NewDelivery} (h : Inserted E e ns db db')
    (hcolumn : PayloadColumn db) (hn : n ∈ ns) :
    ∃ payload, storedPayload E db' n.deliveryId = some payload ∧ outboxPayload e n.deliveryId = some payload := by
  obtain ⟨xs, hxs, hall⟩ := h.payloads
  obtain ⟨x, hx, hpayload⟩ := find_payload hall h.outboxIds hn
  refine ⟨x.2, ?_, hpayload.2⟩
  -- the id of a new row is in no payload that was there
  have hold : db.payloads.find? (fun x => x.1 = (outboxIdentities E.digests.sha256 n.deliveryId).1) = none := by
    rw [find?_eq_none]
    intro y hy heq
    obtain ⟨row, hrow, hid⟩ := hcolumn y hy
    exact (h.outboxFresh n hn row hrow).1 (hid.trans (of_decide_eq_true heq))
  rw [storedPayload, hxs, find?_append, hold, Option.none_or, hx]
  rfl

/-! ## Targets -/

theorem trimTargets_some {seen ts ts' : List String} (h : trimTargets seen ts = some ts') : ts' = ts.map trimSpace := by
  induction ts generalizing seen ts' with
  | nil =>
    cases h
    rfl
  | cons t ts ih =>
    unfold trimTargets at h
    dsimp only at h
    split at h
    · cases h
    · obtain ⟨rest, hrest, rfl⟩ := Option.map_eq_some_iff.mp h
      rw [ih hrest, map_cons]

/-! ## The event of a request -/

/-- The queue part of an event comes from the queue part of the request, with a small priority. -/
theorem queueEvent_priority {now : Int} (hvalid : validQueuePublish queue = true)
    (h : queueEvent E now queue = some event) : ∀ q ∈ event, IsInt64 q.priority := by
  intro q hq
  cases queue with
  | none =>
    cases h
    cases hq
  | some request =>
    simp only [queueEvent, Option.ite_none_left_eq_some, Option.some.injEq] at h
    rw [← h.2] at hq
    cases hq
    simp only [validQueuePublish, Bool.and_eq_true, decide_eq_true_eq] at hvalid
    obtain ⟨⟨⟨⟨-, hlow⟩, hhigh⟩, -⟩, -⟩ := hvalid
    show -2 ^ 63 ≤ request.priority ∧ request.priority < 2 ^ 63
    omega

theorem queueEvent_none_iff {now : Int} (h : queueEvent E now queue = some event) : event = none ↔ queue = none := by
  cases queue with
  | none =>
    cases h
    simp
  | some =>
    simp only [queueEvent, Option.ite_none_left_eq_some, Option.some.injEq] at h
    simp [← h.2]

/-- A trimmed text that `domain.JSONObject` accepts is an object. -/
theorem object_of_jsonObject {raw : String} {v : Json} (h : Events.jsonObject (trimSpace raw) = true)
    (hv : Json.decode (trimSpace raw).toList = some v) : ∃ ms, v = obj ms := by
  unfold Events.jsonObject at h
  rw [trimSpace_idem] at h
  simp only [Bool.and_eq_true, decide_eq_true_eq] at h
  cases hcs : (trimSpace raw).toList with
  | nil => simp [hcs] at h
  | cons =>
    rw [hcs] at h hv
    cases h.1
    exact decode_brace hv

/-- What the checks of the service and of the store promise of an event whose payload could be written. -/
theorem published_event {deliveryId payload : String} (hrequest : validRequest source input key = true)
    (hbuilt : Built E o reads source input p) (hvalid : Validated p)
    (hpayload : outboxPayload p.event deliveryId = some payload) :
    ∃ v created, Json.decode (trimSpace input.data).toList = some v ∧
      Rfc3339.format o.now = some created ∧ Published p.event (escapeHTML v) created := by
  obtain ⟨j, hj, -⟩ := Option.map_eq_some_iff.mp hpayload
  obtain ⟨event, hevent, -⟩ := Option.bind_eq_some_iff.mp hj
  obtain ⟨data, hdata, hevent⟩ := Option.bind_eq_some_iff.mp hevent
  obtain ⟨at_, hat, -⟩ := Option.bind_eq_some_iff.mp hevent
  obtain ⟨v, hv, rfl⟩ := Option.map_eq_some_iff.mp hdata
  obtain ⟨created, hcreated, -⟩ := Option.map_eq_some_iff.mp hat
  have hqueue : validQueuePublish input.queue = true := by
    simp only [validRequest, Bool.and_eq_true] at hrequest
    exact hrequest.2
  have hobject := hvalid.data
  rw [hbuilt.data] at hv hobject
  obtain ⟨ms, rfl⟩ := object_of_jsonObject hobject hv
  refine ⟨obj ms, created, hv, hbuilt.createdAt ▸ hcreated, ?_⟩
  exact
    { id := hvalid.id
      type := hvalid.type
      source := hvalid.source
      targets := hvalid.targets
      distinct := hvalid.distinct
      target := hvalid.target
      raw := hdata
      object := ⟨_, rfl⟩
      created := hcreated
      priority := queueEvent_priority hqueue hbuilt.queue }

theorem id_target_of_newDeliveries {policies : List Application} (hvalid : Validated p)
    (hn : n ∈ newDeliveries E p.event policies (callbackJobs policies p.jobs)) :
    n.deliveryId ≠ "" ∧ n.targetAppId ∈ p.event.targetAppIds := by
  obtain ⟨job, hjob, hn⟩ := mem_flatMap.mp hn
  obtain ⟨job', hjob', rfl⟩ := mem_map.mp hjob
  obtain ⟨hid, -, -, htarget⟩ := hvalid.job job' hjob'
  split at hn
  · cases hn
  obtain ⟨index, hindex, rfl⟩ := mem_mapIdx.mp hn
  refine ⟨?_, htarget⟩
  show (if 0 < index then derivedCallbackDeliveryId E job'.id else job'.id) ≠ ""
  split
  · simp [derivedCallbackDeliveryId]
  · exact hid

/-! ## Requests whose events can be streamed -/

/-- The bytes of a frame, counted from the request: what the field names, the frame type and the
punctuation take, and the JSON texts of the values. -/
def requestFrameBytes (deliveryId : String) (attempt : Int) (eventId source type : String)
    (targets : List String) (data : Json) (created : List Char) : Nat :=
  133 + size (ofInt attempt) + size (ofString deliveryId) + size (ofString eventId)
    + size (ofString (Text.trimSpace type)) + size (ofString source)
    + (targets.map fun t => size (ofString (Text.trimSpace t)) + 1).sum + size (escapeHTML data)
    + size (ofString (String.ofList created))

/-- The limits of the stream protocol on a request that the service accepts. -/
structure Streamable (o : EventOptions) (reads : Events.Reads) (source : String) (input : PublishRequest)
    (deliveryId : String) (attempt : Int) : Prop where
  queue : input.queue = none
  targets : ∀ ts, requestTargets o reads input = .ok ts →
    ts.length ≤ 100 ∧ ∀ t ∈ ts, byteLength (Text.trimSpace t) ≤ 128
  eventId : ∀ id, o.newId 0 "evt_" = some id → byteLength id ≤ 128
  sourceApp : byteLength source ≤ 128
  delivery : byteLength deliveryId ≤ 128
  data : ∀ v, Json.decode (Text.trimSpace input.data).toList = some v →
    v.repeatsKey = false ∧ v.depth + 2 ≤ maxDepth
  size : ∀ ts id v created, requestTargets o reads input = .ok ts → o.newId 0 "evt_" = some id →
    Json.decode (Text.trimSpace input.data).toList = some v → Rfc3339.format o.now = some created →
    requestFrameBytes deliveryId attempt id source input.type ts v created ≤ maxMessageBytes

theorem frameBytes_built {ts : List String} (deliveryId : String) (attempt : Int) (v : Json) (created : List Char)
    (hbuilt : Built E o reads source input p) (hperm : p.event.targetAppIds.Perm (ts.map trimSpace))
    (hne : p.event.targetAppIds ≠ []) :
    frameBytes deliveryId attempt p.event (escapeHTML v) (ofString (String.ofList created)) =
      requestFrameBytes deliveryId attempt p.event.id source input.type ts v created := by
  have hsum : (p.event.targetAppIds.map fun t => size (ofString t) + 1).sum =
      (ts.map fun t => size (ofString (trimSpace t)) + 1).sum := by
    rw [(hperm.map _).sum_eq, map_map]
    rfl
  unfold frameBytes requestFrameBytes
  rw [size_ofStrings hne, hbuilt.type, hbuilt.sourceAppId]
  omega

/-- The frame of an accepted request can be sent exactly if the request is streamable. -/
theorem sendable_iff {deliveryId : String} {attempt : Int} {v : Json} {created : List Char}
    (hbuilt : Built E o reads source input p) (hvalid : Validated p)
    (hv : Json.decode (trimSpace input.data).toList = some v)
    (hcreated : Rfc3339.format o.now = some created) :
    Sendable deliveryId attempt p.event (escapeHTML v) created ↔
      Streamable o reads source input deliveryId attempt := by
  obtain ⟨ts, ts', hts, hts', htargets⟩ := hbuilt.targets
  have hperm : p.event.targetAppIds.Perm (ts.map trimSpace) := by
    rw [htargets, ← trimTargets_some hts']
    exact perm_insertionSort _ ts'
  have hbytes := frameBytes_built deliveryId attempt v created hbuilt hperm hvalid.targets
  constructor
  · intro h
    exact
      { queue := (queueEvent_none_iff hbuilt.queue).mp h.queue
        targets := by
          intro us hus
          cases hts.symm.trans hus
          refine ⟨?_, fun t ht => h.target _ (hperm.mem_iff.mpr (mem_map_of_mem ht))⟩
          rw [← length_map, ← hperm.length_eq]
          exact h.targets
        eventId := by
          intro id hid
          cases hbuilt.eventId.symm.trans hid
          exact h.id
        sourceApp := by
          rw [← hbuilt.sourceAppId]
          exact h.source
        delivery := h.delivery
        data := by
          intro w hw
          cases hv.symm.trans hw
          exact ⟨by simpa using h.keys, by simpa using h.depth⟩
        size := by
          intro us id w cs hus hid hw hcs
          cases hts.symm.trans hus
          cases hbuilt.eventId.symm.trans hid
          cases hv.symm.trans hw
          cases hcreated.symm.trans hcs
          rw [← hbytes]
          exact h.size }
  · intro h
    obtain ⟨hlen, hlong⟩ := h.targets ts hts
    exact
      { queue := (queueEvent_none_iff hbuilt.queue).mpr h.queue
        targets := by
          rw [hperm.length_eq, length_map]
          exact hlen
        target := by
          intro t ht
          obtain ⟨u, hu, rfl⟩ := mem_map.mp (hperm.mem_iff.mp ht)
          exact hlong u hu
        id := h.eventId _ hbuilt.eventId
        source := by
          rw [hbuilt.sourceAppId]
          exact h.sourceApp
        delivery := h.delivery
        keys := by simpa using (h.data v hv).1
        depth := by simpa using (h.data v hv).2
        size := by
          rw [hbytes]
          exact h.size ts _ v created hts hbuilt.eventId hv hcreated }

/-- A delivery that a request inserts, with its stored payload and what is known of its event. -/
theorem published_delivery {q : Publication} {replay : Bool}
    (h : publish E o reads source input key clock db = .ok ((q, replay), db')) (hcolumn : PayloadColumn db)
    {d : DeliveryRow} (hd : d ∈ db'.delivery.deliveries) (hnew : d ∉ db.delivery.deliveries) :
    ∃ p payload v created, Built E o reads source input p ∧ Validated p ∧
      Json.decode (trimSpace input.data).toList = some v ∧ Rfc3339.format o.now = some created ∧
      Published p.event (escapeHTML v) created ∧ storedPayload E db' d.id = some payload ∧
      outboxPayload p.event d.id = some payload ∧ d.id ≠ "" ∧ d.targetAppId ∈ p.event.targetAppIds := by
  rcases publish_cases h with ⟨-, -, hdelivery, -⟩ | ⟨-, hrequest, p, hbuilt, -, hvalid, hdone⟩
  · -- a replay inserts nothing
    rw [hdelivery] at hd
    exact absurd hd hnew
  · obtain ⟨policies, -, hins⟩ := hdone.sinks
    rw [hins.deliveries, mem_append] at hd
    obtain ⟨n, hn, rfl⟩ := mem_map.mp (hd.resolve_left hnew)
    have hchecked := validatePublication_ok hvalid
    obtain ⟨hid, htarget⟩ := id_target_of_newDeliveries hchecked hn
    obtain ⟨payload, hstored, hpayload⟩ := storedPayload_inserted hins hcolumn hn
    obtain ⟨v, created, hv, hcreated, hpublished⟩ := published_event hrequest hbuilt hchecked hpayload
    exact ⟨p, payload, v, created, hbuilt, hchecked, hv, hcreated, hpublished, hstored, hpayload, hid, htarget⟩

/-- A delivery that an accepted request inserts is streamed by a session that is ready for it exactly if the
request is within the limits of the stream protocol and the session's output has room. -/
theorem published_streamed_iff (E : StoreEnv) (o : EventOptions) (reads : Events.Reads) (source : String)
    (input : PublishRequest) (key : String) (clock : Int) (db db' : EventDb) (q : Publication)
    (replay : Bool) (h : publish E o reads source input key clock db = .ok ((q, replay), db'))
    (hcolumn : PayloadColumn db) (d : DeliveryRow) (hd : d ∈ db'.delivery.deliveries)
    (hnew : d ∉ db.delivery.deliveries) :
    ∃ payload, storedPayload E db' d.id = some payload ∧
      ∀ (g : GatewayOptions) (env : Surroundings) (now : DeliveryDb) (s : Session),
        s.appId = d.targetAppId → Ready g env now s d.id (payloadFrameBytes payload 1) →
        (Streamed g env payload now s ↔
          Streamable o reads source input d.id (assignedAttempt d.id now) ∧
            HasRoom g env payload d.id now s) := by
  obtain ⟨p, payload, v, created, hbuilt, hchecked, hv, hcreated, hpublished, hstored, hpayload, hid, htarget⟩ :=
    published_delivery h hcolumn hd hnew
  refine ⟨payload, hstored, fun g env now s happ hready => ?_⟩
  rw [← sendable_iff hbuilt hchecked hv hcreated]
  exact streamed_iff hpublished hid (happ ▸ htarget) hpayload hready

/-! ## A request with a queue object -/

/-- The defaults of the gateway, with a byte budget that holds a frame of the given size. -/
def sampleGateway (bytes : Nat) : GatewayOptions where
  assignmentLease := 60 * 1000000
  maxProcessing := 15 * 60 * 1000000
  maxInFlightBytes := max (16 * 1024 * 1024) bytes
  outboundQueue := 272
  retryDelay := 1000000

/-- Nothing else happens to the session. -/
def quietSurroundings : Surroundings where
  newId := some "asn_1"
  now := 1700000001000000
  releaseNow := 1700000002000000
  whileAssigning s := s
  beforeEnqueue s := s
  beforeRelease db := db
  assigning_same _ := ⟨rfl, rfl⟩

/-- A session that has just started. -/
def sampleSession : Session where
  appId := "app_1"
  connectionId := "conn_1"
  started := true
  maxInFlight := 10
  inflight := []
  inflightBytes := 0
  reserved := 0
  reservedBytes := 0
  closing := false
  done := false
  frames := []

/-- A `queue` object that asks for nothing. -/
def emptyQueue : QueuePublish where
  availableAt := none
  delaySeconds := none
  orderingKey := ""
  priority := 0
  deduplicationKey := ""
  metadata := ""

def samplePublish (queue : Option QueuePublish) : Except ServiceError ((Publication × Bool) × EventDb) :=
  publish sampleStore (sampleOptions 1700000000123456789) sampleReads "app_2" (sampleRequest queue) "key-1"
    1700000000123456 (sampleDb [])

/-- What is looked at of a run: the deliveries with their targets, the attempt of an assignment and what the
store answers to it. -/
def sampleRun (queue : Option QueuePublish) : Option (List (String × String) × Nat × Option AssignmentDisposition) :=
  (samplePublish queue).toOption.map fun r =>
    (r.2.delivery.deliveries.map fun d => (d.id, d.targetAppId), assignedAttempt "job_1" r.2.delivery,
      (assignStreamDelivery "job_1" "app_1" "conn_1" "asn_1" 1 1700000001000000 (60 * 1000000)
        (15 * 60 * 1000000) r.2.delivery).toOption.map Prod.fst)

/-- The delivery of a run, and that the session is ready for it. -/
theorem sampleRun_spec (hrun : sampleRun queue = some ([("job_1", "app_1")], 1, some .assigned)) :
    ∃ q replay db' d, samplePublish queue = .ok ((q, replay), db') ∧ d ∈ db'.delivery.deliveries ∧
      d.id = "job_1" ∧ d.targetAppId = "app_1" ∧ assignedAttempt "job_1" db'.delivery = 1 ∧
      ∀ bytes, Ready (sampleGateway bytes) quietSurroundings db'.delivery sampleSession "job_1" bytes := by
  obtain ⟨q, replay, db', hp, hresult⟩ := accepted_of_eval hrun
  simp only [Prod.mk.injEq] at hresult
  obtain ⟨hrows, hattempt, hassign⟩ := hresult
  obtain ⟨d, hd, hrow⟩ := mem_map.mp (hrows ▸ mem_singleton.mpr rfl)
  obtain ⟨hid, htarget⟩ := Prod.mk.inj hrow
  refine ⟨q, replay, db', d, hp, hd, hid, htarget, hattempt, fun bytes => ?_⟩
  exact
    { opened := rfl
      started := rfl
      stays := fun _ h => ⟨h, h⟩
      window := by decide
      budget := by
        show (0 : Int) + 0 + (bytes : Int) ≤ max (16 * 1024 * 1024 : Int) (bytes : Int)
        omega
      assignable := by
        refine ⟨"asn_1", ?_⟩
        cases ha : assignStreamDelivery "job_1" "app_1" "conn_1" "asn_1" 1 1700000001000000 (60 * 1000000)
            (15 * 60 * 1000000) db'.delivery with
        | error =>
          rw [ha] at hassign
          cases hassign
        | ok a =>
          obtain ⟨disposition, assigned⟩ := a
          rw [ha] at hassign
          cases hassign
          exact ⟨assigned, rfl, ha⟩ }

/-- A request with a `queue` object is accepted, and a session that is ready for its delivery refuses the
message. -/
theorem queued_not_streamed :
    ∃ q replay db' d payload, samplePublish (some emptyQueue) = .ok ((q, replay), db') ∧
      d ∈ db'.delivery.deliveries ∧ d.id = "job_1" ∧ d.targetAppId = "app_1" ∧
      storedPayload sampleStore db' "job_1" = some payload ∧
      Ready (sampleGateway (payloadFrameBytes payload 1)) quietSurroundings db'.delivery sampleSession "job_1"
        (payloadFrameBytes payload 1) ∧
      deliver (sampleGateway (payloadFrameBytes payload 1)) quietSurroundings payload db'.delivery
        sampleSession = ⟨sampleSession, db'.delivery, some (.nack 1000000)⟩ ∧
      ¬ Streamed (sampleGateway (payloadFrameBytes payload 1)) quietSurroundings payload db'.delivery
        sampleSession := by
  have hrun : sampleRun (some emptyQueue) = some ([("job_1", "app_1")], 1, some .assigned) := by
    decide +kernel
  obtain ⟨q, replay, db', d, hp, hd, hid, htarget, -, hready⟩ := sampleRun_spec hrun
  obtain ⟨p, payload, v, created, hbuilt, -, -, -, hpublished, hstored, hpayload, hne, happ⟩ :=
    published_delivery hp (fun x hx => (not_mem_nil hx).elim) hd not_mem_nil
  rw [hid] at hstored hpayload hne
  rw [htarget] at happ
  -- the event has the seventh field
  have hqueue : p.event.queue ≠ none := fun hnone => by
    have := (queueEvent_none_iff hbuilt.queue).mp hnone
    cases this
  have hclosed : openMessage "app_1" payload = none := by
    obtain ⟨envelope, -, -, -, hopen⟩ := openMessage_payload hpublished hne happ hpayload
    cases hmsg : openMessage "app_1" payload with
    | none => rfl
    | some r => exact absurd ((hopen r).mp hmsg).1.queue hqueue
  have hnack : deliver (sampleGateway (payloadFrameBytes payload 1)) quietSurroundings payload db'.delivery
      sampleSession = ⟨sampleSession, db'.delivery, some (.nack 1000000)⟩ := by
    unfold deliver
    rw [show openMessage sampleSession.appId payload = none from hclosed]
    rfl
  refine ⟨q, replay, db', d, payload, hp, hd, hid, htarget, hstored, hready _, hnack, ?_⟩
  rintro ⟨-, -, -, -, -, -, -, -, hkept, -⟩
  rw [hnack] at hkept
  cases hkept

theorem streamable_plain : Streamable (sampleOptions 1700000000123456789) sampleReads "app_2" (sampleRequest none)
    "job_1" 1 where
  queue := rfl
  targets := by
    intro ts hts
    cases hts
    decide +kernel
  eventId := by
    intro id hid
    cases hid
    decide +kernel
  sourceApp := by decide +kernel
  delivery := by decide +kernel
  data := by
    have h : (Json.decode (trimSpace (sampleRequest none).data).toList).all
        (fun v => !v.repeatsKey && decide (v.depth + 2 ≤ maxDepth)) = true := by
      decide +kernel
    intro v hv
    rw [hv] at h
    simpa using h
  size := by
    have h : (Json.decode (trimSpace (sampleRequest none).data).toList).all (fun v =>
        (Rfc3339.format 1700000000123456789).all fun created =>
          decide (requestFrameBytes "job_1" 1 "evt_1" "app_2" "order.created" ["app_1"] v created
            ≤ maxMessageBytes)) = true := by
      decide +kernel
    intro ts id v created hts hid hv hcreated
    cases hts
    cases hid
    rw [hv, Option.all_some, show Rfc3339.format 1700000000123456789 = some created from hcreated, Option.all_some] at h
    exact of_decide_eq_true h

/-- The same request without it is streamed. -/
theorem published_streamed_iff_plain :
    ∃ q replay db' payload, samplePublish none = .ok ((q, replay), db') ∧
      storedPayload sampleStore db' "job_1" = some payload ∧
      Streamed (sampleGateway (payloadFrameBytes payload 1)) quietSurroundings payload db'.delivery
        sampleSession := by
  have hrun : sampleRun none = some ([("job_1", "app_1")], 1, some .assigned) := by
    decide +kernel
  obtain ⟨q, replay, db', d, hp, hd, hid, htarget, hattempt, hready⟩ := sampleRun_spec hrun
  obtain ⟨payload, hpayload, hiff⟩ := published_streamed_iff _ _ _ _ _ _ _ _ _ _ _ hp
    (fun x hx => (not_mem_nil hx).elim) d hd not_mem_nil
  rw [hid] at hpayload hiff
  refine ⟨q, replay, db', payload, hp, hpayload, ?_⟩
  refine (hiff _ quietSurroundings db'.delivery sampleSession htarget.symm (hready _)).mpr ⟨?_, ?_⟩
  · rw [hattempt]
    exact streamable_plain
  · show ([] : List String).length < 272
    decide

end RelayHub.Stream
