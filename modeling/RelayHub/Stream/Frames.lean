import RelayHub.Stream.Session

/-! # RelayHub streams — frames of published events

What a session makes of the payload that a publication stores. `Published.validate_iff` and
`openMessage_payload` say which frames the session lets itself send (`Sendable`), and `streamed_iff` follows a
message through `deliver` in a session that is ready for it. -/

namespace RelayHub.Stream

open List Json Events Delivery Option

/-! ## The frame of an event -/

/-- The number of bytes of an `event.delivery` frame. Beside the values there are the names of the fields,
the type and the punctuation. -/
def frameBytes (deliveryId : String) (attempt : Int) (e : Event) (data created : Json) : Nat :=
  132 + size (ofInt attempt) + size (ofString deliveryId) + size (ofString e.id) + size (ofString e.type)
    + size (ofString e.sourceAppId) + size (ofStrings e.targetAppIds) + size data + size created

theorem size_deliveryFields (deliveryId : String) (attempt : Int) (e : Event) (data : Json) (created : List Char) :
    size (ofFields (deliveryFields deliveryId attempt (ofFields (eventFields e data created)))) =
      frameBytes deliveryId attempt e data (ofString (String.ofList created)) := by
  have hnames : [size (ofString "attempt"), size (ofString "delivery_id"), size (ofString "event"),
      size (ofString "type"), size (ofString "event.delivery"), size (ofString "id"),
      size (ofString "source_app_id"), size (ofString "target_app_ids"), size (ofString "data"),
      size (ofString "created_at")] = [9, 13, 7, 6, 16, 4, 15, 16, 6, 12] := by
    decide +kernel
  simp only [List.cons.injEq, and_true] at hnames
  obtain ⟨h1, h2, h3, h4, h5, h6, h7, h8, h9, h10⟩ := hnames
  rw [size_ofFields (by simp [deliveryFields]), deliveryFields]
  simp only [map_cons, map_nil, sum_cons, sum_nil]
  rw [size_ofFields (by simp [eventFields]), eventFields]
  simp only [map_cons, map_nil, sum_cons, sum_nil, h1, h2, h3, h4, h5, h6, h7, h8, h9, h10, frameBytes]
  omega

theorem one_le_size (v : Json) : 1 ≤ size v := by
  obtain ⟨c, cs, htext, -⟩ := text_head v
  rw [size, htext, String.utf8Len_cons]
  have := c.utf8Size_pos
  omega

theorem validDelivery_fields {deliveryId : String} {attempt : Int} {event : Json} (hattempt : IsInt64 attempt)
    (hpos : 1 ≤ attempt) :
    validDelivery (keyed (deliveryFields deliveryId attempt event)) =
      (bounded deliveryId 128 && validEvent (some event)) := by
  have hfields : ["delivery_id", "attempt", "event"].map (lookup (keyed (deliveryFields deliveryId attempt event))) =
      [some (ofString deliveryId), some (ofInt attempt), some event] := by
    simp only [map_cons, map_nil, lookup_ofFields]
    rfl
  simp only [map_cons, map_nil, List.cons.injEq, and_true] at hfields
  obtain ⟨hid, hat, hevent⟩ := hfields
  have honly : only (keyed (deliveryFields deliveryId attempt event))
      ["type", "delivery_id", "attempt", "event"] = true := by
    rw [only_fields]
    rfl
  simp only [validDelivery, stringField, intField, hid, hat, hevent, honly, bind_some,
    unmarshalString_ofString, unmarshalInt_ofInt hattempt, any_some, hpos, decide_true, Bool.true_and,
    Bool.and_true]

/-- `ValidateServerFrame` of an `event.delivery` frame. -/
theorem validateServerFrame_delivery {deliveryId : String} {attempt : Int} {event : Json}
    (hattempt : IsInt64 attempt) (hpos : 1 ≤ attempt) :
    validateServerFrame (String.ofList (ofFields (deliveryFields deliveryId attempt event)).text) = none ↔
      size (ofFields (deliveryFields deliveryId attempt event)) ≤ maxMessageBytes ∧
        event.repeatsKey = false ∧ event.depth < maxDepth ∧ bounded deliveryId 128 = true ∧
        validEvent (some event) = true := by
  have hnames : ((deliveryFields deliveryId attempt event).map Prod.fst).Nodup :=
    show ["attempt", "delivery_id", "event", "type"].Nodup by decide
  have hread := decodeObject_ofFields hnames (keyed (deliveryFields deliveryId attempt event))
  -- the other three values are flat
  have hrepeats : (∀ f ∈ deliveryFields deliveryId attempt event, f.2.repeatsKey = false) ↔
      event.repeatsKey = false := by
    simp [deliveryFields, repeatsKey, ofInt, ofString]
  have hdepth : (∀ f ∈ deliveryFields deliveryId attempt event, f.2.depth < maxDepth) ↔ event.depth < maxDepth := by
    have hflat : 0 < maxDepth := by decide
    simp [deliveryFields, depth, ofInt, ofString, hflat]
  rw [hrepeats, hdepth] at hread
  unfold validateServerFrame
  cases hdec : decodeObject (.ofList (ofFields (deliveryFields deliveryId attempt event)).text) with
  | error =>
    refine ⟨(fun h => by cases h), fun h => ?_⟩
    rw [hread.mpr ⟨h.1, h.2.1, h.2.2.1, rfl⟩] at hdec
    cases hdec
  | ok object =>
    obtain ⟨hsize, hrep, hd, rfl⟩ := (decodeObject_ofFields hnames object).mp hdec
    have htype : stringField (keyed (deliveryFields deliveryId attempt event)) "type" = some "event.delivery" := by
      rw [stringField, lookup_ofFields]
      show (some (ofString "event.delivery")).bind unmarshalString = _
      rw [bind_some, unmarshalString_ofString]
    have hframe : (serverFrames.find? fun frame => frame.1 = "event.delivery") =
        some ("event.delivery", validDelivery) := rfl
    simp only [htype, hframe, validDelivery_fields hattempt hpos, ite_eq_left_iff, reduceCtorEq, imp_false,
      Classical.not_not, Bool.and_eq_true]
    exact ⟨fun h => ⟨hsize, hrepeats.mp hrep, hdepth.mp hd, h⟩, fun h => h.2.2.2⟩

/-! ## Messages of stored payloads -/

theorem jsonObject_rawInto {ms : Object} (h : (obj ms).depth ≤ maxDepth) :
    Events.jsonObject (rawInto (obj ms)) = true := by
  have htrim : Text.trimSpace (rawInto (obj ms)) = rawInto (obj ms) := by
    simp [Text.trimSpace, rawInto, text, Text.isSpace]
  have hdecode : Json.decode (rawInto (obj ms)).toList = some (obj ms) := by
    rw [rawInto, String.toList_ofList, decode_text h]
  unfold Events.jsonObject
  simp only [htrim, hdecode, isSome_some, Bool.and_true]
  simp [rawInto, text]

/-- What `validatePublication` and the service promise of an event, and what writing it does. -/
structure Published (e : Event) (data : Json) (created : List Char) : Prop where
  id : e.id ≠ ""
  type : e.type ≠ ""
  source : e.sourceAppId ≠ ""
  targets : e.targetAppIds ≠ []
  distinct : e.targetAppIds.Nodup
  target : ∀ t ∈ e.targetAppIds, t ≠ ""
  raw : rawJson e.data = some data
  object : ∃ ms, data = obj ms
  created : Rfc3339.format e.createdAt = some created
  priority : ∀ q ∈ e.queue, IsInt64 q.priority

/-- The frame of a published event can be sent. -/
structure Sendable (deliveryId : String) (attempt : Int) (e : Event) (data : Json) (created : List Char) :
    Prop where
  queue : e.queue = none
  targets : e.targetAppIds.length ≤ 100
  target : ∀ t ∈ e.targetAppIds, byteLength t ≤ 128
  id : byteLength e.id ≤ 128
  source : byteLength e.sourceAppId ≤ 128
  delivery : byteLength deliveryId ≤ 128
  keys : data.repeatsKey = false
  depth : data.depth + 2 ≤ maxDepth
  size : frameBytes deliveryId attempt e data (ofString (String.ofList created)) ≤ maxMessageBytes

/-- The text of the frame. -/
def frameText (deliveryId : String) (attempt : Int) (e : Event) (data : Json) (created : List Char) : String :=
  String.ofList (ofFields (deliveryFields deliveryId attempt (ofFields (eventFields e data created)))).text

theorem byteLength_frameText (deliveryId : String) (attempt : Int) (e : Event) (data : Json) (created : List Char) :
    byteLength (frameText deliveryId attempt e data created) =
      frameBytes deliveryId attempt e data (ofString (String.ofList created)) := by
  rw [← size_deliveryFields, frameText, byteLength, String.toList_ofList, size]

theorem bounded_iff {value : String} {max : Nat} (h : value ≠ "") :
    bounded value max = true ↔ byteLength value ≤ max := by
  simp [bounded, h]

variable {e : Event} {data : Json} {created : List Char} {deliveryId payload : String}

section

variable {appId : String}

section

variable (h : Published e data created)

include h

theorem Published.json (hqueue : e.queue = none) : e.json = some (ofFields (eventFields e data created)) := by
  simp [Event.json, h.raw, timeJson, h.created, hqueue, queueField, eventFields]

/-- `ValidateServerFrame` lets the first frame of a published event pass exactly if it can be sent. -/
theorem Published.validate_iff (hid : deliveryId ≠ "") {event : Json} (hevent : e.json = some event) :
    validateServerFrame (String.ofList (ofFields (deliveryFields deliveryId 1 event)).text) = none ↔
      Sendable deliveryId 1 e data created := by
  obtain ⟨ms, hms⟩ := h.object
  have hobject : isObject (some data) = true := by rw [hms]; rfl
  rw [validateServerFrame_delivery (by decide) (by decide), bounded_iff hid, validEvent_json hevent h.raw]
  constructor
  · rintro ⟨hsize, hkeys, hdepth, hdelivery, hlimits, -⟩
    cases hevent.symm.trans (h.json hlimits.queue)
    rw [size_deliveryFields] at hsize
    rw [repeatsKey_eventFields] at hkeys
    rw [depth_eventFields] at hdepth
    exact
      { queue := hlimits.queue
        targets := hlimits.targets.2
        target := fun t ht => (bounded_iff (h.target t ht)).mp (hlimits.target t ht)
        id := (bounded_iff h.id).mp hlimits.id
        source := (bounded_iff h.source).mp hlimits.source
        delivery := hdelivery
        keys := hkeys
        depth := hdepth
        size := hsize }
  · intro hs
    cases hevent.symm.trans (h.json hs.queue)
    rw [size_deliveryFields, repeatsKey_eventFields, depth_eventFields]
    refine ⟨hs.size, hs.keys, hs.depth, hs.delivery, ?_, hobject⟩
    exact
      { queue := hs.queue
        targets := ⟨length_pos_of_ne_nil h.targets, hs.targets⟩
        target := fun t ht => (bounded_iff (h.target t ht)).mpr (hs.target t ht)
        distinct := h.distinct
        id := (bounded_iff h.id).mpr hs.id
        type := h.type
        source := (bounded_iff h.source).mpr hs.source }

/-- A session of a target finds nothing wrong with a stored payload exactly if its frame can be sent. -/
theorem openMessage_payload (hid : deliveryId ≠ "") (happ : appId ∈ e.targetAppIds)
    (hpayload : outboxPayload e deliveryId = some payload) :
    ∃ envelope : Events.OutboxEnvelope, envelope.deliveryId = deliveryId ∧ envelope.generation = 1 ∧
      envelope.event.json = e.json ∧ ∀ r, openMessage appId payload = some r ↔
        Sendable deliveryId 1 e data created ∧ r = (envelope, frameText deliveryId 1 e data created) := by
  obtain ⟨j, hj, -⟩ := map_eq_some_iff.mp hpayload
  obtain ⟨e', hstored, hdecode⟩ := decodeEnvelope_marshal hj hpayload (show IsInt64 1 by decide) h.priority
  obtain ⟨event, hevent, hfields⟩ := bind_eq_some_iff.mp hj
  cases hfields
  have hjson : e'.json = some event := (stored_json hstored).trans hevent
  have hdepth : (ofFields [("delivery_id", ofString deliveryId), ("generation", ofInt 1),
      ("event", event)]).depth ≤ maxDepth ↔ event.depth < maxDepth := by
    have hflat : 0 < maxDepth := by decide
    rw [depth_ofFields_le hflat]
    simp [depth, ofString, ofInt, hflat]
  have hvalid : validEnvelope { deliveryId, generation := 1, event := e' } appId = true := by
    obtain ⟨ms, hms⟩ := h.object
    obtain ⟨v, hv, hescape⟩ := map_eq_some_iff.mp h.raw
    have hobject : Events.jsonObject (rawInto data) = true := by
      have hdata : data.depth ≤ maxDepth := by
        rw [← hescape, depth_escapeHTML]
        exact depth_le_of_decode hv
      rw [hms] at hdata ⊢
      exact jsonObject_rawInto hdata
    rw [stored_eq hstored h.raw]
    simp [validEnvelope, hid, h.id, h.type, h.source, h.targets, hobject, happ]
  have hwire : deliveryWire { deliveryId, generation := 1, event := e' } 1 =
      some (.ofList (ofFields (deliveryFields deliveryId 1 event)).text) := by
    rw [deliveryWire, hjson]
    rfl
  have hcheck := h.validate_iff hid hevent
  refine ⟨{ deliveryId, generation := 1, event := e' }, rfl, rfl, stored_json hstored, fun r => ?_⟩
  unfold openMessage
  rw [hdecode]
  by_cases hd : event.depth < maxDepth
  · rw [if_pos (hdepth.mpr hd)]
    simp only [hvalid, Bool.not_true, Bool.false_eq_true, if_false, one_ne_zero, hwire]
    constructor
    · intro hr
      split at hr
      · cases hr
      next hok =>
      have hnone : validateServerFrame (.ofList (ofFields (deliveryFields deliveryId 1 event)).text) = none := by
        rw [Bool.not_eq_true, Bool.or_eq_false_iff] at hok
        exact isNone_iff_eq_none.mp (by simpa using hok.2)
      have hs := hcheck.mp hnone
      cases hevent.symm.trans (h.json hs.queue)
      cases hr
      exact ⟨hs, rfl⟩
    · rintro ⟨hs, rfl⟩
      have hnone := hcheck.mpr hs
      cases hevent.symm.trans (h.json hs.queue)
      have hsize : byteLength (frameText deliveryId 1 e data created) ≤ maxMessageBytes := by
        rw [byteLength_frameText]
        exact hs.size
      show (if decide (maxMessageBytes < byteLength (frameText deliveryId 1 e data created)) || _ then _
        else _) = _
      rw [hnone, decide_eq_false (Nat.not_lt.mpr hsize)]
      rfl
  · -- the decoder stops at the same depth as the frame's
    rw [if_neg (fun hle => hd (hdepth.mp hle))]
    refine ⟨(fun h => by cases h), fun hs => absurd ?_ hd⟩
    cases hevent.symm.trans (h.json hs.1.queue)
    exact (depth_eventFields e data created).mpr hs.1.depth

end

/-- What `deliver` has checked of a message it goes on with. -/
theorem openMessage_some {envelope : Events.OutboxEnvelope} {wire : String}
    (h : openMessage appId payload = some (envelope, wire)) :
    ∃ decoded, decodeEnvelope payload = some decoded ∧ validEnvelope decoded appId = true ∧
      deliveryWire decoded 1 = some wire ∧ validateServerFrame wire = none ∧
      decoded.deliveryId = envelope.deliveryId ∧ decoded.event = envelope.event := by
  unfold openMessage at h
  split at h
  · cases h
  next decoded hdecoded =>
  split at h
  · cases h
  next hvalid =>
  dsimp only at h
  split at h
  · cases h
  next hwire =>
  split at h
  · cases h
  next hok =>
  cases h
  rw [Bool.not_eq_true, Bool.or_eq_false_iff] at hok
  refine ⟨decoded, hdecoded, by simpa using hvalid, hwire, ?_, rfl, rfl⟩
  exact isNone_iff_eq_none.mp (by simpa using hok.2)

end

/-! ## A session that is ready -/

section

variable {o : GatewayOptions} {env : Surroundings} {db : DeliveryDb} {s : Session}

/-- The session as the frame finds it when it comes to the channel. -/
def Session.atEnqueue (env : Surroundings) (deliveryId : String) (first second : Nat) (s : Session) : Session :=
  env.beforeEnqueue (((env.whileAssigning (s.reserve first)).releaseReservation first).record deliveryId
    { token := env.newId.getD "", generation := 1, bytes := second })

/-- The number of bytes of the frame a payload gives. -/
def payloadFrameBytes (payload : String) (attempt : Int) : Nat :=
  (((decodeEnvelope payload).bind fun envelope => deliveryWire envelope attempt).map byteLength).getD 0

/-- There is room for the frame in the channel when it gets there. -/
def HasRoom (o : GatewayOptions) (env : Surroundings) (payload deliveryId : String) (db : DeliveryDb)
    (s : Session) : Prop :=
  (s.atEnqueue env deliveryId (payloadFrameBytes payload 1)
    (payloadFrameBytes payload (assignedAttempt deliveryId db))).frames.length < o.outboundQueue

/-- The session is open and started, and stays open; it has a place in its window and in its byte budget,
and the store assigns it the delivery. -/
structure Ready (o : GatewayOptions) (env : Surroundings) (db : DeliveryDb) (s : Session) (deliveryId : String)
    (bytes : Nat) : Prop where
  opened : s.closedLocked = false
  started : s.started = true
  stays : ∀ s' : Session, s'.closedLocked = false →
    (env.whileAssigning s').closedLocked = false ∧ (env.beforeEnqueue s').closedLocked = false
  window : s.inflight.length + s.reserved < s.maxInFlight
  budget : s.inflightBytes + s.reservedBytes + bytes ≤ o.maxInFlightBytes
  assignable : ∃ token assigned, env.newId = some token ∧
    assignStreamDelivery deliveryId s.appId s.connectionId token 1 env.now o.assignmentLease o.maxProcessing
      db = .ok (.assigned, assigned)

/-- The payload decodes, its envelope and its frame are valid, and the message stays in flight with its
`event.delivery` frame queued behind those that are there. -/
def Streamed (o : GatewayOptions) (env : Surroundings) (payload : String) (db : DeliveryDb) (s : Session) :
    Prop :=
  ∃ envelope first frame, decodeEnvelope payload = some envelope ∧ validEnvelope envelope s.appId = true ∧
    deliveryWire envelope 1 = some first ∧ validateServerFrame first = none ∧
    deliveryWire envelope (assignedAttempt envelope.deliveryId db) = some frame ∧
    (deliver o env payload db s).settlement = none ∧
    (deliver o env payload db s).session.frames =
      (s.atEnqueue env envelope.deliveryId (byteLength first) (byteLength frame)).frames ++ [frame]

theorem Sendable.attempt_iff {attempt : Int} :
    Sendable deliveryId attempt e data created ↔ Sendable deliveryId 1 e data created ∧
      frameBytes deliveryId attempt e data (ofString (String.ofList created)) ≤ maxMessageBytes := by
  constructor
  · intro h
    refine ⟨{ h with size := ?_ }, h.size⟩
    have hfirst : Json.size (ofInt 1) = 1 := by decide +kernel
    have hattempt := one_le_size (ofInt attempt)
    have hsize := h.size
    unfold frameBytes at hsize ⊢
    omega
  · rintro ⟨h, hsize⟩
    exact { h with size := hsize }

theorem Ready.atEnqueue_open {bytes : Nat} (h : Ready o env db s deliveryId bytes) (first second : Nat) :
    (s.atEnqueue env deliveryId first second).done = false := by
  have hlater : (env.whileAssigning (s.reserve first)).closedLocked = false :=
    (h.stays (s.reserve first) h.opened).1
  have hopened : (s.atEnqueue env deliveryId first second).closedLocked = false :=
    (h.stays (((env.whileAssigning (s.reserve first)).releaseReservation first).record deliveryId
      { token := env.newId.getD "", generation := 1, bytes := second }) hlater).2
  exact (Bool.or_eq_false_iff.mp hopened).2

theorem queueFrame_full {wire : String} (hfull : ¬ s.frames.length < o.outboundQueue) :
    (queueFrame o env deliveryId wire db s).session.frames = s.frames := by
  have hnone : s.enqueueRaw o wire = none := by simp [Session.enqueueRaw, hfull]
  unfold queueFrame
  rw [hnone]
  dsimp only
  split
  · rfl
  next hremoved =>
  obtain ⟨x, -, hx⟩ := map_eq_some_iff.mp hremoved
  cases hx
  rfl

variable (h : Published e data created) (hid : deliveryId ≠ "") (happ : s.appId ∈ e.targetAppIds)
  (hpayload : outboxPayload e deliveryId = some payload)

include h hid happ hpayload

theorem payloadFrameBytes_eq (hs : Sendable deliveryId 1 e data created) (attempt : Int) :
    payloadFrameBytes payload attempt = byteLength (frameText deliveryId attempt e data created) := by
  obtain ⟨envelope, heid, -, hjson, hopen⟩ := openMessage_payload h hid happ hpayload
  obtain ⟨decoded, hdecoded, -, -, -, hdid, hevent⟩ := openMessage_some ((hopen _).mpr ⟨hs, rfl⟩)
  have hwire : deliveryWire decoded attempt = some (frameText deliveryId attempt e data created) := by
    rw [deliveryWire, hevent, hjson, h.json hs.queue, hdid, heid]
    rfl
  rw [payloadFrameBytes, hdecoded, bind_some, hwire, map_some, getD_some]

theorem deliver_ready (hready : Ready o env db s deliveryId (payloadFrameBytes payload 1))
    (hs : Sendable deliveryId 1 e data created) :
    ∃ token assigned later, deliver o env payload db s =
      if maxMessageBytes < byteLength (frameText deliveryId (assignedAttempt deliveryId db) e data created)
      then giveBack o env deliveryId token 1 assigned later
      else queueFrame o env deliveryId (frameText deliveryId (assignedAttempt deliveryId db) e data created)
        assigned (s.atEnqueue env deliveryId (byteLength (frameText deliveryId 1 e data created))
          (byteLength (frameText deliveryId (assignedAttempt deliveryId db) e data created))) := by
  obtain ⟨envelope, heid, hgen, hjson, hopen⟩ := openMessage_payload h hid happ hpayload
  obtain ⟨token, assigned, htoken, hassign⟩ := hready.assignable
  have hmsg := (hopen _).mpr ⟨hs, rfl⟩
  obtain ⟨first, hfirst⟩ : ∃ n, byteLength (frameText deliveryId 1 e data created) = n := ⟨_, rfl⟩
  have hadmits : s.admits o first = true := by
    rw [← hfirst, ← payloadFrameBytes_eq h hid happ hpayload hs 1]
    simp [Session.admits, hready.opened, hready.window, hready.budget]
  have hlater : (s.reserve first).closedLocked = false := hready.opened
  have hsame := env.assigning_same (s.reserve first)
  have hassign' : assignStreamDelivery envelope.deliveryId (env.whileAssigning (s.reserve first)).appId
      (env.whileAssigning (s.reserve first)).connectionId token envelope.generation env.now o.assignmentLease
      o.maxProcessing db = .ok (.assigned, assigned) := by
    rw [heid, hgen, hsame.1, hsame.2]
    exact hassign
  have hwire : deliveryWire envelope (assignedAttempt envelope.deliveryId db) =
      some (frameText deliveryId (assignedAttempt deliveryId db) e data created) := by
    rw [deliveryWire, hjson, h.json hs.queue, heid]
    rfl
  have hclosed : ((env.whileAssigning (s.reserve first)).releaseReservation first).closedLocked = false :=
    (hready.stays _ hlater).1
  refine ⟨token, assigned, (env.whileAssigning (s.reserve first)).releaseReservation first, ?_⟩
  unfold deliver
  simp only [hmsg, hfirst, hadmits, Bool.not_true, Bool.false_eq_true, if_false, htoken, hassign', hclosed, hwire]
  rw [heid, hgen, Session.atEnqueue, htoken]
  rfl

/-- A stored payload is streamed by a session that is ready for it exactly if its frame can be sent and
there is room for it. -/
theorem streamed_iff (hready : Ready o env db s deliveryId (payloadFrameBytes payload 1)) :
    Streamed o env payload db s ↔ Sendable deliveryId (assignedAttempt deliveryId db) e data created ∧
        HasRoom o env payload deliveryId db s := by
  obtain ⟨envelope, heid, hgen, hjson, hopen⟩ := openMessage_payload h hid happ hpayload
  have hsendable : Streamed o env payload db s ∨ Sendable deliveryId (assignedAttempt deliveryId db) e data created →
        Sendable deliveryId 1 e data created := by
    rintro (⟨-, -, -, -, -, -, -, -, hkept, -⟩ | hs)
    · -- a message that is not opened is refused
      cases hmsg : openMessage s.appId payload with
      | none =>
        unfold deliver at hkept
        rw [hmsg] at hkept
        cases hkept
      | some r => exact ((hopen r).mp hmsg).1
    · exact (Sendable.attempt_iff.mp hs).1
  by_cases hs : Sendable deliveryId 1 e data created
  case neg =>
    exact ⟨fun h => absurd (hsendable (.inl h)) hs, fun h => absurd (hsendable (.inr h.1)) hs⟩
  rw [HasRoom, payloadFrameBytes_eq h hid happ hpayload hs, payloadFrameBytes_eq h hid happ hpayload hs]
  obtain ⟨token, assigned, later, hrun⟩ := deliver_ready h hid happ hpayload hready hs
  obtain ⟨decoded, hdecoded, hvalid, hfirst, hcheck, hdid, hevent⟩ := openMessage_some ((hopen _).mpr ⟨hs, rfl⟩)
  have hframe : deliveryWire decoded (assignedAttempt decoded.deliveryId db) =
      some (frameText deliveryId (assignedAttempt deliveryId db) e data created) := by
    rw [deliveryWire, hevent, hjson, h.json hs.queue, hdid, heid]
    rfl
  have hdone := hready.atEnqueue_open (byteLength (frameText deliveryId 1 e data created))
    (byteLength (frameText deliveryId (assignedAttempt deliveryId db) e data created))
  constructor
  · rintro ⟨decoded', first, frame, hdecoded', -, hfirst', -, hframe', hkept, hframes⟩
    cases hdecoded.symm.trans hdecoded'
    cases hfirst.symm.trans hfirst'
    cases hframe.symm.trans hframe'
    rw [hrun] at hkept hframes
    rw [hdid, heid] at hframes
    split at hkept
    · cases hkept
    next hsize =>
    rw [if_neg hsize] at hframes
    rw [byteLength_frameText] at hsize
    refine ⟨Sendable.attempt_iff.mpr ⟨hs, Nat.not_lt.mp hsize⟩, ?_⟩
    -- a full channel is left as it is
    by_contra hfull
    rw [queueFrame_full hfull] at hframes
    have := congrArg List.length hframes
    rw [length_append, length_singleton] at this
    omega
  · rintro ⟨hs, hroom⟩
    have hsize : ¬ maxMessageBytes <
        byteLength (frameText deliveryId (assignedAttempt deliveryId db) e data created) := by
      rw [byteLength_frameText]
      exact Nat.not_lt.mpr hs.size
    rw [if_neg hsize, queueFrame, Session.enqueueRaw, hdone, if_neg Bool.false_ne_true, if_pos hroom] at hrun
    refine ⟨decoded, _, _, hdecoded, hvalid, hfirst, hcheck, hframe, ?_, ?_⟩
    · rw [hrun]
    · rw [hrun, hdid, heid]

end

end RelayHub.Stream
