import RelayHub.Lib.Json
import RelayHub.Lib.Rfc3339

/-! # RelayHub events — the domain types and their JSON

`domain.Event` and the values a publication is made of, with the texts `json.Marshal` writes for them and
the reading of an `outboxEnvelope` by a decoder that refuses unknown fields.

* An instant is an integer: nanoseconds since the Unix epoch, the resolution of `time.Time`.
* A Go string or `json.RawMessage` is a `String`, so its bytes are valid UTF-8. PostgreSQL stores no
  other text, and `domain.JSONObject` accepts no other data.
* A `json.RawMessage` read from a text is the value without its white space, which nothing below
  depends on. -/

open Json

namespace RelayHub

/-- `len` of a Go string or byte slice. -/
def byteLength (s : String) : Nat := String.utf8Len s.toList

namespace Events

/-! ## Types -/

/-- The zero `time.Time`: 0001-01-01T00:00:00Z. -/
def zeroTime : Int := -62135596800 * 1000000000

/-- `domain.QueueEvent`. -/
structure QueueEvent where
  availableAt : Int := zeroTime
  orderingKey : String := ""
  priority : Int := 0
  metadata : String := ""
  dedupHash : String := ""
  deriving DecidableEq

/-- `domain.Event`. -/
structure Event where
  id : String := ""
  type : String := ""
  sourceAppId : String := ""
  targetAppIds : List String := []
  data : String := ""
  createdAt : Int := zeroTime
  queue : Option QueueEvent := none
  deriving DecidableEq

/-- `domain.Job` as a publication makes it. Its status is `pending`, both its timestamps are
`createdAt` and the other fields keep their zero values. -/
structure Job where
  callback : Bool
  id : String
  eventId : String
  sourceAppId : String
  targetAppId : String
  createdAt : Int
  deriving DecidableEq

/-- `store.Publication`. -/
structure Publication where
  event : Event
  jobs : List Job
  deriving DecidableEq

/-- `outboxEnvelope`. -/
structure OutboxEnvelope where
  deliveryId : String := ""
  generation : Int := 0
  event : Event := {}
  deriving DecidableEq

inductive DeliveryMode where
  | queue
  | websocket
  | callback
  | all
  deriving DecidableEq

/-- The fields of `domain.Application` that publishing reads. -/
structure Application where
  id : String
  enabled : Bool
  deliveryMode : DeliveryMode
  callbackURL : Option String
  deriving DecidableEq

/-- The fields of `domain.RoutingRule` that publishing reads. -/
structure RoutingRule where
  targetAppId : String
  enabled : Bool
  deriving DecidableEq

def jsonObject (raw : String) : Bool :=
  let raw := (Text.trimSpace raw).toList
  raw.head? = some '{' && (decode raw).isSome

/-! ## Writing -/

/-- `json.RawMessage.MarshalJSON` and the compaction after it: the value, with the HTML characters of
its strings escaped. -/
def rawJson (raw : String) : Option Json := (decode raw.toList).map escapeHTML

/-- `time.Time.MarshalJSON`. -/
def timeJson (t : Int) : Option Json := (Rfc3339.format t).map fun cs => ofString (String.ofList cs)

/-- A field that `omitempty` leaves out. -/
def omitIf (empty : Bool) (name : String) (v : Json) : List (String × Json) :=
  if empty then [] else [(name, v)]

/-- `metadata` of a queue event; an empty text is left out. -/
def metadataField (raw : String) : Option (List (String × Json)) :=
  if raw = "" then some [] else (rawJson raw).map fun v => [("metadata", v)]

/-- The fields of a queue event. `omitempty` never leaves a `time.Time` out. -/
def QueueEvent.fields (q : QueueEvent) : Option (List (String × Json)) := do
  let availableAt ← timeJson q.availableAt
  let metadata ← metadataField q.metadata
  some ([("available_at", availableAt)] ++ omitIf (q.orderingKey = "") "ordering_key" (ofString q.orderingKey)
    ++ omitIf (q.priority = 0) "priority" (ofInt q.priority) ++ metadata)

def queueField : Option QueueEvent → Option (List (String × Json))
  | none => some []
  | some q => q.fields.map fun fs => [("queue", ofFields fs)]

def Event.json (e : Event) : Option Json := do
  let data ← rawJson e.data
  let createdAt ← timeJson e.createdAt
  let queue ← queueField e.queue
  some (ofFields ([("id", ofString e.id), ("type", ofString e.type),
    ("source_app_id", ofString e.sourceAppId), ("target_app_ids", ofStrings e.targetAppIds),
    ("data", data), ("created_at", createdAt)] ++ queue))

def OutboxEnvelope.json (envelope : OutboxEnvelope) : Option Json := do
  let event ← envelope.event.json
  some (ofFields [("delivery_id", ofString envelope.deliveryId),
    ("generation", ofInt envelope.generation), ("event", event)])

def marshal (v : Option Json) : Option String := v.map fun v => String.ofList v.text

/-! ## Reading

A field is found by its name or, failing that, by its name with letters folded; a value of another type
is an error, and `null` leaves a field as it is. Errors are collected and reported at the end, so the
first one decides. -/

/-- The letters that fold to an ASCII letter. -/
def foldRune (c : Char) : Char :=
  if c = 'ſ' then 's' else if c = 'K' then 'k' else c.toLower

/-- `key` names the field `name`, which is in lower case. -/
def namesField (key : List Json.Chunk) (name : String) : Bool :=
  (unquoteChars key).map foldRune = name.toList

def stringInto (old : String) : Json → Option String
  | .null => some old
  | .str s => some (unquote s)
  | _ => none

def intInto (old : Int) : Json → Option Int
  | .null => some old
  | .num n => n.toInt?
  | _ => none

def rawInto (v : Json) : String := String.ofList v.text

/-- `time.Time.UnmarshalJSON`, which reads the text between the quotes as it stands. -/
def timeInto (old : Int) : Json → Option Int
  | .null => some old
  | .str s => Rfc3339.parse false (Json.Chunk.textAll s)
  | _ => none

/-- Decodes the members of an object one after another. -/
def structInto {α : Type} (set : α → List Json.Chunk → Json → Option α) (old : α) : Json → Option α
  | .null => some old
  | .obj ms => ms.foldlM (fun a m => set a m.1 m.2) old
  | _ => none

def QueueEvent.set (q : QueueEvent) (key : List Json.Chunk) (v : Json) : Option QueueEvent :=
  if namesField key "available_at" then (timeInto q.availableAt v).map fun x => { q with availableAt := x }
  else if namesField key "ordering_key" then
    (stringInto q.orderingKey v).map fun x => { q with orderingKey := x }
  else if namesField key "priority" then (intInto q.priority v).map fun x => { q with priority := x }
  else if namesField key "metadata" then some { q with metadata := rawInto v }
  else none

/-- A pointer field: `null` clears it. -/
def queueInto (old : Option QueueEvent) : Json → Option (Option QueueEvent)
  | .null => some none
  | v => (structInto QueueEvent.set (old.getD {}) v).map some

def Event.set (e : Event) (key : List Json.Chunk) (v : Json) : Option Event :=
  if namesField key "id" then (stringInto e.id v).map fun x => { e with id := x }
  else if namesField key "type" then (stringInto e.type v).map fun x => { e with type := x }
  else if namesField key "source_app_id" then
    (stringInto e.sourceAppId v).map fun x => { e with sourceAppId := x }
  else if namesField key "target_app_ids" then
    (unmarshalStrings v).map fun x => { e with targetAppIds := x }
  else if namesField key "data" then some { e with data := rawInto v }
  else if namesField key "created_at" then (timeInto e.createdAt v).map fun x => { e with createdAt := x }
  else if namesField key "queue" then (queueInto e.queue v).map fun x => { e with queue := x }
  else none

def OutboxEnvelope.set (o : OutboxEnvelope) (key : List Json.Chunk) (v : Json) : Option OutboxEnvelope :=
  if namesField key "delivery_id" then (stringInto o.deliveryId v).map fun x => { o with deliveryId := x }
  else if namesField key "generation" then (intInto o.generation v).map fun x => { o with generation := x }
  else if namesField key "event" then (structInto Event.set o.event v).map fun x => { o with event := x }
  else none

/-- `decoder.Decode(&envelope)` of a text that holds nothing else, with unknown fields refused. -/
def decodeEnvelope (text : String) : Option OutboxEnvelope :=
  (decode text.toList).bind (structInto OutboxEnvelope.set {})

end Events

end RelayHub
