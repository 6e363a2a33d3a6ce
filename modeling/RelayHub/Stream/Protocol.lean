import Mathlib.Data.List.Dedup
import RelayHub.Events.Domain

/-! # RelayHub streams — the wire protocol

`ValidateServerFrame`: what the server lets itself send on a stream connection. A frame is a JSON object
of at most 64 KiB in which no object has a key twice, with exactly the fields of its type.

* A frame is a `String`, so it is valid UTF-8: `json.Marshal` writes nothing else.
* A Go map of raw fields is the list of the object's members; a field is its last member of that name. -/

namespace RelayHub.Stream

open List Json Events

/-! ## Errors -/

/-- The stable error codes. -/
inductive ErrorCode where
  | invalidUTF8
  | frameTooLarge
  | invalidJSON
  | duplicateKey
  | invalidFrame
  | unknownType
  | unsupportedVersion
  | deliveryNotAssigned
  | staleDelivery
  | consumerAlreadyStarted
  | consumerUnavailable
  | backpressure
  | functionNotAssigned
  | internalError
  deriving DecidableEq

def ErrorCode.text : ErrorCode → String
  | .invalidUTF8 => "invalid_utf8"
  | .frameTooLarge => "frame_too_large"
  | .invalidJSON => "invalid_json"
  | .duplicateKey => "duplicate_key"
  | .invalidFrame => "invalid_frame"
  | .unknownType => "unknown_type"
  | .unsupportedVersion => "unsupported_version"
  | .deliveryNotAssigned => "delivery_not_assigned"
  | .staleDelivery => "stale_delivery"
  | .consumerAlreadyStarted => "consumer_already_started"
  | .consumerUnavailable => "consumer_unavailable"
  | .backpressure => "backpressure"
  | .functionNotAssigned => "function_not_assigned"
  | .internalError => "internal_error"

def stableErrors : List ErrorCode :=
  [.invalidUTF8, .frameTooLarge, .invalidJSON, .duplicateKey, .invalidFrame, .unknownType,
    .unsupportedVersion, .deliveryNotAssigned, .staleDelivery, .consumerAlreadyStarted,
    .consumerUnavailable, .backpressure, .functionNotAssigned, .internalError]

def stableErrorCode (code : String) : Bool := stableErrors.any fun e => e.text = code

structure ProtocolError where
  code : ErrorCode
  message : String
  retryable : Bool
  deriving DecidableEq

def invalidFrame : ProtocolError := ⟨.invalidFrame, "Frame fields are invalid.", false⟩

def notOneObject : ProtocolError := ⟨.invalidJSON, "Frame must contain exactly one JSON object.", false⟩

/-! ## Objects and fields -/

def maxMessageBytes : Nat := 64 * 1024

def version : Int := 1

def defaultConsumer : String := "default"

/-- The members of an object. -/
abbrev Object := List (List Chunk × Json)

/-- `decodeObject`. The scan for repeated keys goes first, and `json.Unmarshal` after it limits the
nesting. -/
def decodeObject (raw : String) : Except ProtocolError Object :=
  if maxMessageBytes < byteLength raw then
    .error ⟨.frameTooLarge, "Frame exceeds the 64 KiB limit.", false⟩
  else
    match parse true raw.toList with
    | .error .duplicate => .error ⟨.duplicateKey, "Frame contains a duplicate JSON object key.", false⟩
    | .error .malformed => .error notOneObject
    | .ok v =>
      match v with
      | .obj ms => if v.depth ≤ maxDepth then .ok ms else .error notOneObject
      | _ => .error notOneObject

def only (object : Object) (fields : List String) : Bool :=
  object.all fun m => fields.contains (unquote m.1)

/-- `len` of the map: members with the same name are one entry. -/
def fieldCount (object : Object) : Nat := (object.map fun m => unquote m.1).dedup.length

def stringField (object : Object) (name : String) : Option String :=
  (lookup object name).bind unmarshalString

def boolField (object : Object) (name : String) : Option Bool :=
  (lookup object name).bind unmarshalBool

def intField (object : Object) (name : String) : Option Int :=
  (lookup object name).bind unmarshalInt

def bounded (value : String) (max : Nat) : Bool := decide (value ≠ "") && decide (byteLength value ≤ max)

/-- `jsonObject` of a field. -/
def isObject : Option Json → Bool
  | some (.obj _) => true
  | _ => false

def validTime (value : String) : Bool := (Rfc3339.parse true value.toList).isSome

/-- `domain.ValidFunctionName`: `^[A-Za-z_][A-Za-z0-9_.-]{0,63}$`. -/
def validFunctionName (name : String) : Bool :=
  match name.toList with
  | [] => false
  | c :: cs =>
    (c.isAlpha || c = '_') && decide (cs.length ≤ 63) && cs.all fun c => c.isAlphanum || c = '_' || c = '.' || c = '-'

/-! ## Server frames -/

def validEvent : Option Json → Bool
  | some (.obj event) =>
    only event ["id", "type", "source_app_id", "target_app_ids", "data", "created_at"] && decide (fieldCount event = 6)
      && (((lookup event "target_app_ids").bind unmarshalStrings).any fun targets =>
        decide (1 ≤ targets.length) && decide (targets.length ≤ 100)
          && targets.all (fun target => bounded target 128) && decide targets.Nodup)
      && ((stringField event "id").any fun id => bounded id 128)
      && ((stringField event "type").any fun type => decide (type ≠ ""))
      && ((stringField event "source_app_id").any fun source => bounded source 128)
      && isObject (lookup event "data") && ((stringField event "created_at").any validTime)
  | _ => false

def validReady (object : Object) : Bool :=
  only object ["type", "protocol_version", "app_id", "connection_id", "heartbeat_interval_ms", "max_in_flight_limit"]
    && intField object "protocol_version" = some version
    && ((stringField object "app_id").any fun app => bounded app 128)
    && ((stringField object "connection_id").any fun conn => bounded conn 128)
    && ((intField object "heartbeat_interval_ms").any fun ms => decide (1000 ≤ ms) && decide (ms ≤ 120000))
    && ((intField object "max_in_flight_limit").any fun max => decide (1 ≤ max) && decide (max ≤ 256))

def validStarted (object : Object) : Bool :=
  only object ["type", "consumer", "max_in_flight"] && stringField object "consumer" = some defaultConsumer
    && ((intField object "max_in_flight").any fun max => decide (1 ≤ max) && decide (max ≤ 256))

def validDelivery (object : Object) : Bool :=
  only object ["type", "delivery_id", "attempt", "event"]
    && ((stringField object "delivery_id").any fun id => bounded id 128)
    && ((intField object "attempt").any fun attempt => decide (1 ≤ attempt))
    && validEvent (lookup object "event")

def validAccepted (object : Object) : Bool :=
  only object ["type", "delivery_id", "state"] && ((stringField object "delivery_id").any fun id => bounded id 128)
    && ((stringField object "state").any fun state => ["acked", "retrying", "progress"].contains state)

def validInvoke (object : Object) : Bool :=
  only object ["type", "invocation_id", "function", "input", "deadline"]
    && ((stringField object "invocation_id").any fun id => bounded id 128)
    && ((stringField object "function").any validFunctionName) && isObject (lookup object "input")
    && ((stringField object "deadline").any validTime)

def validError (object : Object) : Bool :=
  only object ["type", "code", "message", "retryable"] && ((stringField object "code").any stableErrorCode)
    && ((stringField object "message").any fun message => bounded message 1024)
    && (boolField object "retryable").isSome

/-- The frame types of the server with the check of their fields. -/
def serverFrames : List (String × (Object → Bool)) :=
  [("ready", validReady), ("consumer.started", validStarted), ("event.delivery", validDelivery),
    ("delivery.accepted", validAccepted), ("function.invoke", validInvoke), ("error", validError),
    ("pong", fun object => only object ["type"])]

/-- `ValidateServerFrame`; `none` if there is no error. -/
def validateServerFrame (raw : String) : Option ProtocolError :=
  match decodeObject raw with
  | .error e => some e
  | .ok object =>
    match stringField object "type" with
    | none => some invalidFrame
    | some typeName =>
      match serverFrames.find? fun frame => frame.1 = typeName with
      | none => some ⟨.unknownType, "Frame type is not supported.", false⟩
      | some frame => if frame.2 object then none else some invalidFrame

/-! ## Frames the server writes -/

/-- `decodeObject` of an object with distinct fields. -/
theorem decodeObject_ofFields {fs : List (String × Json)} (hnames : (fs.map Prod.fst).Nodup) (object : Object) :
    decodeObject (String.ofList (ofFields fs).text) = .ok object ↔
      (ofFields fs).size ≤ maxMessageBytes ∧ (∀ f ∈ fs, f.2.repeatsKey = false) ∧
        (∀ f ∈ fs, f.2.depth < maxDepth) ∧ object = keyed fs := by
  have hsize : byteLength (.ofList (ofFields fs).text) = (ofFields fs).size := by
    simp [byteLength, size]
  have hdepth : (ofFields fs).depth ≤ maxDepth ↔ ∀ f ∈ fs, f.2.depth < maxDepth :=
    depth_ofFields_le (by decide)
  unfold decodeObject
  rw [hsize, String.toList_ofList, parse_text, Bool.true_and, repeatsKey_ofFields hnames]
  by_cases hlarge : maxMessageBytes < (ofFields fs).size
  · simp [hlarge, Nat.not_le.mpr hlarge]
  rw [if_neg hlarge]
  cases hrep : fs.any fun f => f.2.repeatsKey with
  | true =>
    have : ¬ ∀ f ∈ fs, f.2.repeatsKey = false := by
      intro hall
      obtain ⟨f, hf, hkey⟩ := any_eq_true.mp hrep
      rw [hall f hf] at hkey
      cases hkey
    rw [outcome_true]
    exact ⟨(fun h => by cases h), fun h => absurd h.2.1 this⟩
  | false =>
    have hall : ∀ f ∈ fs, f.2.repeatsKey = false := fun f hf => by
      simpa using any_eq_false.mp hrep f hf
    rw [outcome_false, ← hdepth]
    show (if (ofFields fs).depth ≤ maxDepth then Except.ok _ else _) = _ ↔ _
    by_cases hd : (ofFields fs).depth ≤ maxDepth
    · rw [if_pos hd]
      constructor
      · intro h
        cases h
        exact ⟨Nat.not_lt.mp hlarge, hall, hd, rfl⟩
      · rintro ⟨-, -, -, rfl⟩
        rfl
    · rw [if_neg hd]
      exact ⟨(fun h => by cases h), fun h => absurd h.2.2.1 hd⟩

theorem only_fields (fs : List (String × Json)) (names : List String) :
    only (keyed fs) names = fs.all fun f => names.contains f.1 := by
  simp [only, Function.comp_def]

theorem fieldCount_fields {fs : List (String × Json)} (h : (fs.map Prod.fst).Nodup) :
    fieldCount (keyed fs) = fs.length := by
  have hnames : (keyed fs).map (fun m => unquote m.1) = fs.map Prod.fst := by
    simp [Function.comp_def]
  rw [fieldCount, hnames, dedup_eq_self.mpr h, length_map]

/-- The limits of `validEvent` on the fields of an event. -/
structure EventWithinLimits (e : Event) : Prop where
  /-- The six fields are all an event may have. -/
  queue : e.queue = none
  targets : 1 ≤ e.targetAppIds.length ∧ e.targetAppIds.length ≤ 100
  target : ∀ t ∈ e.targetAppIds, bounded t 128 = true
  distinct : e.targetAppIds.Nodup
  id : bounded e.id 128 = true
  type : e.type ≠ ""
  source : bounded e.sourceAppId 128 = true

/-- The six fields of an event without a queue part. -/
def eventFields (e : Event) (data : Json) (created : List Char) : List (String × Json) :=
  [("id", ofString e.id), ("type", ofString e.type), ("source_app_id", ofString e.sourceAppId),
    ("target_app_ids", ofStrings e.targetAppIds), ("data", data),
    ("created_at", ofString (String.ofList created))]

variable (e : Event) (data : Json) (created : List Char)

theorem names_eventFields : ((eventFields e data created).map Prod.fst).Nodup :=
  show ["id", "type", "source_app_id", "target_app_ids", "data", "created_at"].Nodup by decide

theorem validEvent_eventFields : validEvent (some (ofFields (eventFields e data created))) =
      ((decide (1 ≤ e.targetAppIds.length) && decide (e.targetAppIds.length ≤ 100)
          && e.targetAppIds.all (fun target => bounded target 128) && decide e.targetAppIds.Nodup)
        && bounded e.id 128 && decide (e.type ≠ "") && bounded e.sourceAppId 128 && isObject (some data)
        && validTime (String.ofList created)) := by
  have hfields : ["id", "type", "source_app_id", "target_app_ids", "data", "created_at"].map
      (lookup (keyed (eventFields e data created))) = [some (ofString e.id), some (ofString e.type),
        some (ofString e.sourceAppId), some (ofStrings e.targetAppIds), some data,
        some (ofString (.ofList created))] := by
    simp only [map_cons, map_nil, lookup_ofFields]
    rfl
  simp only [map_cons, map_nil, List.cons.injEq, and_true] at hfields
  obtain ⟨hid, htype, hsource, htargets, hdata, hcreated⟩ := hfields
  have honly : only (keyed (eventFields e data created))
      ["id", "type", "source_app_id", "target_app_ids", "data", "created_at"] = true := by
    rw [only_fields]
    rfl
  have hcount : fieldCount (keyed (eventFields e data created)) = 6 :=
    fieldCount_fields (names_eventFields e data created)
  simp only [validEvent, ofFields, stringField, hid, htype, hsource, htargets, hdata, hcreated, honly, hcount,
    Option.bind_some, unmarshalString_ofString, unmarshalStrings_ofStrings, Option.any_some, decide_true,
    Bool.true_and]

theorem repeatsKey_eventFields : (ofFields (eventFields e data created)).repeatsKey = data.repeatsKey := by
  rw [repeatsKey_ofFields (names_eventFields e data created), eventFields]
  simp [repeatsKey, ofString]

theorem depth_eventFields : (ofFields (eventFields e data created)).depth < maxDepth ↔ data.depth + 2 ≤ maxDepth := by
  have htargets := depth_ofStrings_le e.targetAppIds
  have hmax : maxDepth = 9998 + 2 := rfl
  rw [hmax, Nat.lt_succ_iff, depth_ofFields_le (by decide), eventFields]
  simp only [mem_cons, not_mem_nil, or_false, forall_eq_or_imp, forall_eq, ofString, depth]
  omega

/-- `validEvent` of an event as it is written. -/
theorem validEvent_json {e : Event} {j data : Json} (hj : e.json = some j) (hdata : rawJson e.data = some data) :
    validEvent (some j) = true ↔ EventWithinLimits e ∧ isObject (some data) = true := by
  obtain ⟨data', hdata', hj⟩ := Option.bind_eq_some_iff.mp hj
  obtain ⟨at_, hat, hj⟩ := Option.bind_eq_some_iff.mp hj
  obtain ⟨queue, hqueue, hj⟩ := Option.bind_eq_some_iff.mp hj
  cases hdata.symm.trans hdata'
  cases hj
  obtain ⟨cs, hcs, rfl⟩ := Option.map_eq_some_iff.mp hat
  cases hq : e.queue with
  | some =>
    -- the seventh field is refused
    rw [hq] at hqueue
    obtain ⟨fs, -, rfl⟩ := Option.map_eq_some_iff.mp hqueue
    constructor
    · intro h
      simp only [validEvent, ofFields, only_fields] at h
      simp at h
    · intro h
      rw [h.1.queue] at hq
      cases hq
  | none =>
    rw [hq] at hqueue
    cases hqueue
    show validEvent (some (ofFields (eventFields e data cs))) = true ↔ _
    rw [validEvent_eventFields, validTime, String.toList_ofList, Rfc3339.parse_format true hcs, Option.isSome_some]
    simp only [Bool.and_eq_true, decide_eq_true_eq, all_eq_true, and_true]
    constructor
    · rintro ⟨⟨⟨⟨⟨⟨⟨hpos, hmax⟩, htarget⟩, hnodup⟩, hid⟩, htype⟩, hsource⟩, hobj⟩
      exact ⟨⟨hq, ⟨hpos, hmax⟩, htarget, hnodup, hid, htype, hsource⟩, hobj⟩
    · rintro ⟨h, hobj⟩
      exact ⟨⟨⟨⟨⟨⟨h.targets, h.target⟩, h.distinct⟩, h.id⟩, h.type⟩, h.source⟩, hobj⟩

end RelayHub.Stream
