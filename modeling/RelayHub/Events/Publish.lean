import RelayHub.Delivery.Outbox
import RelayHub.Events.Domain
import RelayHub.Queue.Enqueue

/-! # RelayHub events — publishing

`publishEvent` is the transaction of the store: the idempotency record, the target policies, the queue
statements (`Queue.publishQueue`) and one delivery with its outbox row for each sink of each target.
`publish` is `EventService.publish`, which checks a request, resolves and checks its targets and builds
the publication.

* What the service reads before the transaction (`FindPublication`, the routing rules, the
  applications) is an argument, `Reads`: other transactions may commit in between.
* `timestamptz` has microseconds; pgx drops the rest of a `time.Time`.
* The hints sent after the commit (`Notifier`, `Realtime`) change no state and are left out. -/

namespace RelayHub.Events

open Queue Delivery

/-! ## The tables -/

/-- A row of `event_idempotency`. -/
structure IdempotencyRow where
  sourceAppId : String
  keyHash : String
  publication : Publication
  expiresAt : Int

/-- The tables a publication reads and writes. `payloads` is the column `payload` of `outbox`, by the id
of its row; `OutboxRow.payload` is what the store reads back from it. -/
structure EventDb where
  applications : List Application := []
  idempotency : List IdempotencyRow := []
  queue : QueueDb := {}
  delivery : DeliveryDb := {}
  payloads : List (String × String) := []

/-- `store.EventRetention` without the retention of jobs, in nanoseconds. -/
structure EventRetention where
  event : Int
  idempotency : Int

/-- What is computed outside the store: the digests, and what PostgreSQL accepts as a `text`, `json` or
`jsonb` value. -/
structure StoreEnv where
  digests : Digests
  text : String → Bool
  json : String → Bool
  jsonb : String → Bool

/-- A `time.Time` as a `timestamptz`. -/
def micros (t : Int) : Int := t / 1000

/-! ## The transaction -/

variable (E : StoreEnv)

def idempotencyHash (source key : String) : String :=
  E.digests.sha256 (source ++ "\x00" ++ key)

def derivedCallbackDeliveryId (jobId : String) : String :=
  "dlv_cb_" ++ String.ofList ((E.digests.sha256 ("callback\x00" ++ jobId)).toList.take 32)

def validatePublication (p : Publication) (key : String) (retention : EventRetention) : Bool :=
  decide (Text.trimSpace key ≠ "") && decide (p.event.id ≠ "") && decide (p.event.type ≠ "")
    && decide (p.event.sourceAppId ≠ "") && !p.event.targetAppIds.isEmpty && jsonObject p.event.data
    && decide (0 < retention.event) && decide (0 < retention.idempotency)
    && decide (p.jobs.length = p.event.targetAppIds.length)
    && p.event.targetAppIds.all (fun t => decide (t ≠ "")) && decide p.event.targetAppIds.Nodup
    && p.jobs.all (fun j => decide (j.id ≠ "") && decide (j.eventId = p.event.id)
      && decide (j.sourceAppId = p.event.sourceAppId) && p.event.targetAppIds.contains j.targetAppId)
    && decide (p.jobs.map (·.targetAppId)).Nodup

def callbackEnabled (a : Application) : Bool :=
  (a.callbackURL.any fun url => decide (Text.trimSpace url ≠ ""))
    && (a.deliveryMode = .callback || a.deliveryMode = .all)

def enabledSinks (a : Application) : List Sink :=
  (if a.deliveryMode = .queue || a.deliveryMode = .websocket || a.deliveryMode = .all then [.stream] else [])
    ++ if callbackEnabled a then [.callback] else []

/-- `lockTargetPolicies`: the enabled applications among the targets, which have to be all of them and
each have a sink. -/
def lockTargetPolicies (targets : List String) (db : EventDb) : Except StoreError (List Application) :=
  let policies := db.applications.filter fun a => targets.contains a.id && a.enabled
  if policies.length ≠ targets.length then .error .invalidTarget
  else if policies.any fun a => (enabledSinks a).isEmpty then .error .invalidTarget
  else .ok policies

/-- `AppToken` finds no fault with an application id. -/
def validAppToken (appId : String) : Bool :=
  decide (appId ≠ "") && Text.trimSpace appId = appId && decide (byteLength appId ≤ 256)
    && !appId.toList.contains '\x00'

/-- The queue columns of an event. -/
def queuePublication (e : Event) (retention : EventRetention) : QueuePublication where
  eventId := e.id
  eventType := e.type
  sourceAppId := e.sourceAppId
  targetAppIds := e.targetAppIds
  data := e.data
  createdAt := micros e.createdAt
  eventExpiresAt := micros (e.createdAt + retention.event)
  queueAvailableAt := e.queue.map fun q =>
    micros (if q.availableAt = zeroTime then e.createdAt else q.availableAt)
  queueOrderingKey := e.queue.bind fun q => if q.orderingKey = "" then none else some q.orderingKey
  queuePriority := (e.queue.map (·.priority)).getD 0
  queueMetadata := (e.queue.bind fun q => if q.metadata = "" then none else some q.metadata).getD "\x7b\x7d"
  queueDedupHash := (e.queue.map (·.dedupHash)).getD ""

/-- PostgreSQL accepts the columns of the event row, and its source is an application. -/
def acceptsEvent (p : QueuePublication) (db : EventDb) : Bool :=
  E.text p.eventId && E.text p.eventType && E.text p.sourceAppId && p.targetAppIds.all E.text
    && E.json p.data && p.queueOrderingKey.all E.text && E.jsonb p.queueMetadata
    && db.applications.any fun a => a.id = p.sourceAppId

/-- The delivery of a job to a sink; a second sink gets a derived id. -/
def newDelivery (e : Event) (job : Job) (index : Nat) (sink : Sink) : NewDelivery where
  deliveryId := if 0 < index then derivedCallbackDeliveryId E job.id else job.id
  jobId := job.id
  eventId := e.id
  event := (marshal e.json).getD ""
  sourceAppId := e.sourceAppId
  targetAppId := job.targetAppId
  sink := sink
  createdAt := micros e.createdAt

/-- The payload of a new outbox row. -/
def outboxPayload (e : Event) (deliveryId : String) : Option String :=
  marshal (OutboxEnvelope.json { deliveryId, generation := 1, event := e })

/-- `insertDeliveryAndOutbox`. -/
def insertSink (e : Event) (n : NewDelivery) (db : EventDb) : Except StoreError EventDb :=
  if !(E.text n.deliveryId && E.text n.jobId) then .error .database
  else if db.delivery.deliveries.any (DeliveryRow.clashes n.row) then .error .conflict
  else if n.sink = .stream && !validAppToken n.targetAppId then .error .invalidArgument
  else
    match outboxPayload e n.deliveryId with
    | none => .error .invalidArgument
    | some payload =>
      match insertDeliveryAndOutbox E.digests.sha256 n db.delivery with
      | .error err => .error err
      | .ok delivery =>
        .ok { db with
          delivery
          payloads := db.payloads ++ [((outboxIdentities E.digests.sha256 n.deliveryId).1, payload)] }

def insertSinks (E : StoreEnv) (e : Event) : List NewDelivery → EventDb → Except StoreError EventDb
  | [], db => .ok db
  | n :: rest, db =>
    match insertSink E e n db with
    | .error err => .error err
    | .ok db => insertSinks E e rest db

/-- The deliveries of a publication, in the order of the two loops. -/
def newDeliveries (e : Event) (policies : List Application) (jobs : List Job) : List NewDelivery :=
  jobs.flatMap fun job =>
    match policies.find? (·.id = job.targetAppId) with
    | none => []
    | some a => (enabledSinks a).mapIdx fun index sink => newDelivery E e job index sink

/-- A queue event as it comes back from its JSON text: the deduplication hash is not written. -/
def QueueEvent.stored (q : QueueEvent) : QueueEvent :=
  { q with
    metadata := ((rawJson q.metadata).map rawInto).getD ""
    dedupHash := "" }

/-- An event as it comes back from its JSON text. -/
def Event.stored (e : Event) : Option Event :=
  match e.json, rawJson e.data with
  | some _, some data =>
    some { e with
      data := rawInto data
      queue := e.queue.map QueueEvent.stored }
  | _, _ => none

/-- The record of the source and the key. -/
def IdempotencyRow.isFor (source hash : String) (r : IdempotencyRow) : Bool :=
  r.sourceAppId = source && r.keyHash = hash

/-- The jobs with their callback flags as the locked policies give them. -/
def callbackJobs (policies : List Application) (jobs : List Job) : List Job :=
  jobs.map fun job =>
    { job with callback := (policies.find? (·.id = job.targetAppId)).any callbackEnabled }

/-- The part of the transaction that runs when the key has no record: the inserts and the record. -/
def insertPublication (p : Publication) (hash : String) (retention : EventRetention)
    (db : EventDb) : Except StoreError (Publication × EventDb) :=
  match lockTargetPolicies p.event.targetAppIds db with
  | .error err => .error err
  | .ok policies =>
    let jobs := callbackJobs policies p.jobs
    if !acceptsEvent E (queuePublication p.event retention) db then .error .database
    else
      match publishQueue E.digests (queuePublication p.event retention) db.queue with
      | .error err => .error err
      | .ok queue =>
        match insertSinks E p.event (newDeliveries E p.event policies jobs) { db with queue } with
        | .error err => .error err
        | .ok db =>
          match p.event.stored with
          | none => .error .invalidArgument
          | some event =>
            .ok ({ event := p.event, jobs }, { db with
                idempotency := db.idempotency ++ [
                  { sourceAppId := p.event.sourceAppId
                    keyHash := hash
                    publication := { event, jobs }
                    expiresAt := micros (p.event.createdAt + retention.idempotency) }] })

/-- `PublishEvent`; the flag says whether a stored publication was returned. `clock` is
`clock_timestamp()`. -/
def publishEvent (p : Publication) (key : String) (retention : EventRetention)
    (clock : Int) (db : EventDb) : Except StoreError ((Publication × Bool) × EventDb) :=
  if !validatePublication p key retention then .error .conflict
  else
    let hash := idempotencyHash E p.event.sourceAppId key
    let db := { db with
      idempotency := db.idempotency.filter fun r =>
        !(r.isFor p.event.sourceAppId hash && decide (r.expiresAt ≤ clock)) }
    match db.idempotency.find? (IdempotencyRow.isFor p.event.sourceAppId hash) with
    | some r => .ok ((r.publication, true), db)
    | none => (insertPublication E p hash retention db).map fun r => ((r.1, false), r.2)

/-! ## The service -/

/-- `QueuePublish`. -/
structure QueuePublish where
  availableAt : Option Int
  delaySeconds : Option Int
  orderingKey : String
  priority : Int
  deduplicationKey : String
  metadata : String

/-- `PublishEvent` of the service. -/
structure PublishRequest where
  type : String
  targetAppIds : List String
  data : String
  queue : Option QueuePublish

/-- The errors of the service. `newId` is an error of the id generator. -/
inductive ServiceError where
  | invalidInput
  | notFound
  | conflict
  | store (error : StoreError)
  | newId
  deriving DecidableEq

def mapStoreError : StoreError → ServiceError
  | .notFound => .notFound
  | .conflict => .conflict
  | e => .store e

/-- `EventOptions`: the clock and the id generator as this call sees them, the latter by the number of
the call. -/
structure EventOptions where
  now : Int
  newId : Nat → String → Option String
  hasRouter : Bool
  retention : EventRetention

/-- `normalizeEventOptions`. -/
def normalizeRetention (r : EventRetention) : EventRetention where
  event := if r.event ≤ 0 then 7 * 24 * 3600 * 1000000000 else r.event
  idempotency := if r.idempotency ≤ 0 then 24 * 3600 * 1000000000 else r.idempotency

/-- What the service reads before the transaction. -/
structure Reads where
  rules : Except ServiceError (List RoutingRule)
  publication : Except StoreError Publication
  application : String → Except StoreError Application

def validQueuePublish : Option QueuePublish → Bool
  | none => true
  | some q =>
    !(q.availableAt.isSome && q.delaySeconds.isSome)
      && q.delaySeconds.all (fun s => decide (0 ≤ s) && decide (s ≤ 2592000))
      && decide (byteLength (Text.trimSpace q.orderingKey) ≤ 128)
      && decide (-10 ≤ q.priority) && decide (q.priority ≤ 10) && decide (byteLength q.deduplicationKey ≤ 256)
      && (Text.trimSpace q.metadata = ""
        || (decide (byteLength (Text.trimSpace q.metadata) ≤ 16 * 1024) && jsonObject (Text.trimSpace q.metadata)))

/-- The first check of `publish`. -/
def validRequest (source : String) (input : PublishRequest) (key : String) : Bool :=
  decide (source ≠ "") && decide (Text.trimSpace key ≠ "") && decide (Text.trimSpace input.type ≠ "")
    && decide (input.targetAppIds.length ≤ 100) && jsonObject (Text.trimSpace input.data)
    && validQueuePublish input.queue

/-- The targets of the enabled rules, each once. -/
def ruleTargets (rules : List RoutingRule) : List String :=
  rules.foldl (fun targets r =>
    if r.enabled && !targets.contains r.targetAppId then targets ++ [r.targetAppId] else targets) []

/-- The targets of a request, or of the routing rules if it has none. -/
def requestTargets (o : EventOptions) (reads : Reads) (input : PublishRequest) : Except ServiceError (List String) :=
  if !input.targetAppIds.isEmpty then .ok input.targetAppIds
  else if !o.hasRouter then .error .invalidInput
  else
    match reads.rules with
    | .error e => .error e
    | .ok rules => if (ruleTargets rules).isEmpty then .error .invalidInput else .ok (ruleTargets rules)

/-- The trimmed targets; an empty one or a repeated one is an error. -/
def trimTargets : List String → List String → Option (List String)
  | _, [] => some []
  | seen, id :: rest =>
    let id := Text.trimSpace id
    if id = "" || seen.contains id then none else (trimTargets (id :: seen) rest).map (id :: ·)

/-- Every target is an enabled application; the flag says whether it takes callbacks. -/
def checkTargets (reads : Reads) : List String → Except ServiceError (List (String × Bool))
  | [] => .ok []
  | id :: rest =>
    match reads.application id with
    | .error .notFound => .error .invalidInput
    | .error e => .error (mapStoreError e)
    | .ok app =>
      if !app.enabled then .error .invalidInput
      else (checkTargets reads rest).map ((id, callbackEnabled app) :: ·)

/-- The instant a request wants its work to be available at. -/
def requestedAt (now : Int) (q : QueuePublish) : Int :=
  match q.delaySeconds with
  | some s => now + s * 1000000000
  | none => q.availableAt.getD now

/-- The queue part of the event; `none` if it is wanted more than 30 days ahead. -/
def queueEvent (now : Int) : Option QueuePublish → Option (Option QueueEvent)
  | none => some none
  | some q =>
    if now + 30 * 24 * 3600 * 1000000000 < requestedAt now q then none
    else
      some (some
        { availableAt := requestedAt now q
          orderingKey := Text.trimSpace q.orderingKey
          priority := q.priority
          metadata := if Text.trimSpace q.metadata = "" then "\x7b\x7d" else Text.trimSpace q.metadata
          dedupHash := if q.deduplicationKey = "" then "" else E.digests.sha256 q.deduplicationKey })

/-- One job for each target, from the `k`-th call of the id generator on. -/
def makeJobs (o : EventOptions) (source eventId : String) (callback : String → Bool) :
    Nat → List String → Option (List Job)
  | _, [] => some []
  | k, target :: rest =>
    match o.newId k "job_" with
    | none => none
    | some id =>
      (makeJobs o source eventId callback (k + 1) rest).map
        ({ callback := callback target
           id
           eventId
           sourceAppId := source
           targetAppId := target
           createdAt := o.now } :: ·)

/-- The error of the store as the service reports it. -/
def publishError : StoreError → ServiceError
  | .invalidTarget => .invalidInput
  | e => mapStoreError e

/-- The publication of a request whose targets are checked. -/
def makePublication (o : EventOptions) (source : String) (input : PublishRequest)
    (targets : List String) (callback : String → Bool) : Except ServiceError Publication :=
  match o.newId 0 "evt_" with
  | none => .error .newId
  | some id =>
    match queueEvent E o.now input.queue with
    | none => .error .invalidInput
    | some queue =>
      match makeJobs o source id callback 1 targets with
      | none => .error .newId
      | some jobs =>
        .ok
          { event :=
              { id
                type := Text.trimSpace input.type
                sourceAppId := source
                targetAppIds := targets
                data := Text.trimSpace input.data
                createdAt := o.now
                queue }
            jobs }

def publish (o : EventOptions) (reads : Reads) (source : String) (input : PublishRequest)
    (key : String) (clock : Int) (db : EventDb) :
    Except ServiceError ((Publication × Bool) × EventDb) :=
  if !validRequest source input key then .error .invalidInput
  else
    match requestTargets o reads input with
    | .error e => .error e
    | .ok targets =>
      match trimTargets [] targets with
      | none => .error .invalidInput
      | some targets =>
        match reads.publication with
        | .ok p => .ok ((p, true), db)
        | .error .notFound =>
          match checkTargets reads targets with
          | .error e => .error e
          | .ok checked =>
            match makePublication E o source input (targets.insertionSort (· ≤ ·))
                (fun id => (checked.find? (·.1 = id)).any (·.2)) with
            | .error e => .error e
            | .ok p =>
              match publishEvent E p key (normalizeRetention o.retention) clock db with
              | .error e => .error (publishError e)
              | .ok r => .ok r
        | .error e => .error (mapStoreError e)

end RelayHub.Events
