import RelayHub.Queue.Settle

/-! # RelayHub queue — where deliveries come from

Two transactions insert deliveries, both under a lock on the subscription rows they insert for:

* `publishQueue`, the queue statements of `PublishEvent`: the event row, the deduplication keys and
  one delivery for each ready subscription of a target application;
* `completeQueueSchedule`: the event and the delivery of one occurrence of a schedule.

`claimDueQueueSchedules` hands due schedules to a scheduler. -/

namespace RelayHub.Queue

open Table

/-! ## Inserting a delivery -/

/-- `INSERT INTO queue_deliveries … ON CONFLICT(subscription_id,event_id) DO NOTHING` of one row. A
stored row with the same primary key is an error. -/
def insertDelivery (rows : List DeliveryRow) (row : DeliveryRow) : Except StoreError (List DeliveryRow) :=
  if rows.any fun d => d.subscriptionId = row.subscriptionId && d.eventId = row.eventId then .ok rows
  else if rows.any fun d => d.id = row.id then .error .database
  else .ok (rows ++ [row])

/-- The same for the rows of a `SELECT`. -/
def insertDeliveries : List DeliveryRow → List DeliveryRow → Except StoreError (List DeliveryRow)
  | rows, [] => .ok rows
  | rows, row :: rest =>
    match insertDelivery rows row with
    | .error e => .error e
    | .ok rows => insertDeliveries rows rest

/-! ## Publication -/

/-- The values `PublishEvent` computes before its queue statements. -/
structure QueuePublication where
  eventId : String
  eventType : String
  sourceAppId : String
  targetAppIds : List String
  data : String
  createdAt : Int
  /-- `publication.Event.CreatedAt.Add(retention.Event)`. -/
  eventExpiresAt : Int
  queueAvailableAt : Option Int
  queueOrderingKey : Option String
  queuePriority : Int
  queueMetadata : String
  queueDedupHash : String

variable (D : Digests)

/-- `'qdl_' || md5(length($1)::text || ':' || $1 || s.id)`. -/
def publishedDeliveryId (eventId subscriptionId : String) : String :=
  "qdl_" ++ D.md5 (toString eventId.length ++ ":" ++ eventId ++ subscriptionId)

def publishedEvent (p : QueuePublication) : EventRow :=
  { id := p.eventId
    type := p.eventType
    sourceAppId := p.sourceAppId
    targetAppIds := p.targetAppIds
    data := p.data
    createdAt := p.createdAt
    expiresAt := p.eventExpiresAt
    queueAvailableAt := p.queueAvailableAt
    queueOrderingKey := p.queueOrderingKey
    queuePriority := p.queuePriority
    queueMetadata := p.queueMetadata }

/-- `DELETE FROM queue_deduplication_keys … WHERE s.app_id=ANY($1) AND k.expires_at<=$2`, run when
the publication has a deduplication key. -/
def dropExpiredDedupKeys (p : QueuePublication) (db : QueueDb) : QueueDb :=
  if p.queueDedupHash = "" then db
  else
    { db with
      dedupKeys := db.dedupKeys.filter fun k =>
        !(decide (k.expiresAt ≤ p.createdAt) && db.subscriptions.any fun s =>
          s.id = k.subscriptionId && p.targetAppIds.contains s.appId) }

/-- The `WHERE` clause of the delivery insert. -/
def publishes (p : QueuePublication) (db : QueueDb) (s : QueueSubscription) : Bool :=
  p.targetAppIds.contains s.appId && s.enabled && s.pausedAt.isNone
    && (s.eventTypes.isEmpty || s.eventTypes.contains p.eventType)
    && (p.queueDedupHash = "" || s.deduplicationSeconds = 0 || !db.dedupKeys.any fun k =>
      k.subscriptionId = s.id && k.keyHash = p.queueDedupHash && decide (p.createdAt < k.expiresAt))

/-- The delivery a publication inserts for a subscription. -/
def publishedDelivery (p : QueuePublication) (s : QueueSubscription) : DeliveryRow :=
  { id := publishedDeliveryId D p.eventId s.id
    subscriptionId := s.id
    appId := s.appId
    eventId := p.eventId
    generation := 1
    status := .available
    attempts := 0
    availableAt := max p.createdAt (p.queueAvailableAt.getD p.createdAt)
    orderingKey := p.queueOrderingKey
    priority := p.queuePriority
    metadata := p.queueMetadata
    lastReason := none
    createdAt := p.createdAt
    updatedAt := p.createdAt
    expiresAt := min p.eventExpiresAt (p.createdAt + s.retentionSeconds * second) }

def publishedDeliveries (p : QueuePublication) (db : QueueDb) : List DeliveryRow :=
  (db.subscriptions.filter fun s => publishes p db s.toQueueSubscription).map
    fun s => publishedDelivery D p s.toQueueSubscription

/-- The keys that keep the same work out for the rest of the subscription's window. -/
def insertDedupKeys (p : QueuePublication) (db : QueueDb) : QueueDb :=
  if p.queueDedupHash = "" then db
  else
    { db with
      dedupKeys := insertAllIgnore (fun k : DedupRow => (k.subscriptionId, k.keyHash)) db.dedupKeys
        ((db.subscriptions.filter fun s => decide (0 < s.deduplicationSeconds)
            && db.deliveries.any fun d => d.subscriptionId = s.id && d.eventId = p.eventId).map
          fun s =>
            { subscriptionId := s.id
              keyHash := p.queueDedupHash
              eventId := p.eventId
              expiresAt := p.createdAt + s.deduplicationSeconds * second }) }

/-- The queue statements of `PublishEvent`. A priority outside `-10 … 10` meets the `CHECK` of
`events`. -/
def publishQueue (p : QueuePublication) (db : QueueDb) : Except StoreError QueueDb :=
  if db.events.any fun e => e.id = p.eventId then .error .conflict
  else if p.queuePriority < -10 || 10 < p.queuePriority then .error .database
  else
    let db := dropExpiredDedupKeys p { db with events := db.events ++ [publishedEvent p] }
    match insertDeliveries db.deliveries (publishedDeliveries D p db) with
    | .error e => .error e
    | .ok deliveries => .ok (insertDedupKeys p { db with deliveries := deliveries })

/-! ## Schedules -/

/-- `store.QueueScheduleCompletion`. -/
structure QueueScheduleCompletion where
  scheduleId : String
  claimToken : String
  eventId : String
  deliveryId : String
  claimGeneration : Nat
  occurrenceAt : Int
  nextRunAt : Int
  now : Int

/-- `scheduleOccurrenceIDs`: the event and delivery ids of an occurrence. -/
def scheduleOccurrenceIDs (scheduleId : String) (occurrence : Int) : String × String :=
  ("evt_sched_" ++ D.occurrence scheduleId occurrence, "qdl_sched_" ++ D.occurrence scheduleId occurrence)

/-- `id=$1 AND claim_token=$2 AND claim_generation=$3`. -/
def ScheduleRow.claimedBy (c : QueueScheduleCompletion) (q : ScheduleRow) : Bool :=
  q.id = c.scheduleId && (q.claim.map Prod.fst) = some c.claimToken && q.claimGeneration = c.claimGeneration

def scheduledEvent (c : QueueScheduleCompletion) (q : ScheduleRow) (expiresAt : Int) : EventRow :=
  { id := c.eventId
    type := q.eventType
    sourceAppId := q.appId
    targetAppIds := [q.appId]
    data := q.data
    createdAt := c.occurrenceAt
    expiresAt := expiresAt
    queueAvailableAt := some c.occurrenceAt
    queueOrderingKey := nullIfEmpty (q.orderingKey.getD "")
    queuePriority := q.priority
    queueMetadata := q.metadata }

def scheduledDelivery (c : QueueScheduleCompletion) (q : ScheduleRow) (expiresAt : Int) : DeliveryRow :=
  { id := c.deliveryId
    subscriptionId := q.subscriptionId
    appId := q.appId
    eventId := c.eventId
    generation := 1
    status := .available
    attempts := 0
    availableAt := c.occurrenceAt
    orderingKey := nullIfEmpty (q.orderingKey.getD "")
    priority := q.priority
    metadata := q.metadata
    lastReason := none
    createdAt := c.occurrenceAt
    updatedAt := c.occurrenceAt
    expiresAt := expiresAt }

/-- The inserts of a completion whose occurrence is new. `event_id` is unique among the
occurrences. -/
def insertOccurrence (c : QueueScheduleCompletion) (q : ScheduleRow) (expiresAt : Int)
    (db : QueueDb) : Except StoreError QueueDb :=
  match insertDelivery db.deliveries (scheduledDelivery c q expiresAt) with
  | .error e => .error e
  | .ok deliveries =>
    if db.occurrences.any fun o => o.eventId = c.eventId then .error .database
    else
      .ok { db with
        events := insertIgnore EventRow.id db.events (scheduledEvent c q expiresAt)
        deliveries := deliveries
        occurrences := db.occurrences ++ [
          { scheduleId := q.id
            scheduledAt := c.occurrenceAt
            eventId := c.eventId
            createdAt := c.now }] }

/-- The last statement of a completion: the schedule moves on and its claim is released. -/
def advanceSchedule (c : QueueScheduleCompletion) (db : QueueDb) : Except StoreError QueueDb :=
  if db.schedules.countP (ScheduleRow.claimedBy c) = 1 then
    .ok { db with
      schedules := updateWhere (ScheduleRow.claimedBy c) (fun q =>
          { q with
            lastRunAt := some c.occurrenceAt
            nextRunAt := c.nextRunAt
            claim := none
            updatedAt := c.now })
        db.schedules }
  else .error .conflict

def completeQueueSchedule (c : QueueScheduleCompletion) (db : QueueDb) : Except StoreError QueueDb :=
  match db.schedules.find? (ScheduleRow.claimedBy c) with
  | none => .error .conflict
  | some q =>
    match db.findSubscription q.appId q.subscriptionId with
    | none => .error .conflict
    | some sub =>
      if q.nextRunAt ≠ c.occurrenceAt then .error .conflict
      else if db.occurrences.any fun o => o.scheduleId = q.id && o.scheduledAt = c.occurrenceAt then
        advanceSchedule c db
      else
        match insertOccurrence c q (c.occurrenceAt + sub.retentionSeconds * second) db with
        | .error e => .error e
        | .ok db => advanceSchedule c db

/-- `CHECK (priority BETWEEN -10 AND 10)` of `queue_schedules`. -/
def ScheduleRow.priorityInRange (q : ScheduleRow) : Bool :=
  decide (-10 ≤ q.priority) && decide (q.priority ≤ 10)

/-- `UNIQUE(app_id, subscription_id, name)`. -/
def ScheduleRow.sameName (a b : ScheduleRow) : Bool :=
  a.appId = b.appId && a.subscriptionId = b.subscriptionId && a.name = b.name

def createQueueSchedule (item : ScheduleRow) (db : QueueDb) : Except StoreError QueueDb :=
  if (db.findSubscription item.appId item.subscriptionId).isNone then .error .notFound
  else if !item.priorityInRange then .error .database
  else if db.schedules.any fun q => q.id = item.id || q.sameName item then .error .conflict
  else
    .ok { db with
      schedules := db.schedules ++ [ { item with
          orderingKey := nullIfEmpty (item.orderingKey.getD "")
          lastRunAt := none
          claim := none
          claimGeneration := 0 }] }

/-- `app_id=$1 AND subscription_id=$2 AND id=$3`. -/
def ScheduleRow.sameSchedule (item q : ScheduleRow) : Bool :=
  q.appId = item.appId && q.subscriptionId = item.subscriptionId && q.id = item.id

/-- The `SET` clause of a schedule update: a running claim is dropped. -/
def updateScheduleRow (item q : ScheduleRow) : ScheduleRow :=
  { q with
    name := item.name
    enabled := item.enabled
    cronExpression := item.cronExpression
    timezone := item.timezone
    eventType := item.eventType
    data := item.data
    orderingKey := nullIfEmpty (item.orderingKey.getD "")
    priority := item.priority
    metadata := item.metadata
    nextRunAt := item.nextRunAt
    claim := none
    policyVersion := q.policyVersion + 1
    updatedAt := item.updatedAt }

def updateQueueSchedule (item : ScheduleRow) (expectedVersion : Int) (db : QueueDb) : Except StoreError QueueDb :=
  let target : ScheduleRow → Bool := fun q => item.sameSchedule q && q.policyVersion = expectedVersion
  if !db.schedules.any target then
    if db.schedules.any item.sameSchedule then .error .conflict else .error .notFound
  else if !item.priorityInRange then .error .database
  else if db.schedules.any fun q => !item.sameSchedule q && q.sameName item then .error .database
  else .ok { db with schedules := updateWhere target (updateScheduleRow item) db.schedules }

/-- A schedule that a scheduler may claim at `now`. -/
def ScheduleRow.due (db : QueueDb) (now : Int) (q : ScheduleRow) : Bool :=
  q.enabled && decide (q.nextRunAt ≤ now) && (match q.claim with
      | none => true
      | some (_, expiresAt) => decide (expiresAt ≤ now))
    && (match db.findSubscription q.appId q.subscriptionId with
      | none => false
      | some s => s.enabled && s.pausedAt.isNone && s.drainingAt.isNone)

/-- The ids of the due schedules, earliest first. -/
def dueSchedules (db : QueueDb) (now : Int) (limit : Nat) : List String :=
  (((db.schedules.filter (ScheduleRow.due db now)).insertionSort fun a b =>
    a.nextRunAt < b.nextRunAt ∨ a.nextRunAt = b.nextRunAt ∧ a.id ≤ b.id).take limit).map ScheduleRow.id

def claimDueQueueSchedules (now claimUntil : Int) (token : String) (limit : Nat) (db : QueueDb) :
    List ScheduleRow × QueueDb :=
  let claimed : ScheduleRow → Bool := fun q => (dueSchedules db now limit).contains q.id
  let claim : ScheduleRow → ScheduleRow := fun q =>
    { q with
      claim := some (token, claimUntil)
      claimGeneration := q.claimGeneration + 1
      updatedAt := now }
  ((db.schedules.filter claimed).map claim, { db with schedules := updateWhere claimed claim db.schedules })

end RelayHub.Queue
