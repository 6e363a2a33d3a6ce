import RelayHub.Lib.Table

/-! # RelayHub queue — the tables

The rows behind the pull queue: `queue_subscriptions`, `queue_deliveries`,
`queue_delivery_attempts`, `queue_result_callbacks`, `queue_deduplication_keys`, `queue_schedules`,
`queue_schedule_occurrences`, and the columns of `events` the queue reads and writes.

* Timestamps and durations are integers: microseconds, the resolution of `timestamptz`.
* The four lease columns of a delivery are non-null exactly while it is in flight (a `CHECK` of the
  table), so they sit inside `QueueStatus.inFlight`.
* A stored subscription carries its `CHECK` constraints (`SubscriptionRow.check`): a policy outside
  the bounds cannot be stored.
* Foreign keys to `applications` are not modelled; nothing here deletes an application. -/

namespace RelayHub

def second : Int := 1000000

/-- The errors of the store layer. `invalidArgument` is an error of the store's own argument checks,
`database` any error PostgreSQL raises that the store passes on unchanged (a violated constraint, an
invalid statement). -/
inductive StoreError where
  | notFound
  | conflict
  | invalidTarget
  | invalidArgument
  | database
  deriving DecidableEq

namespace Queue

/-! ## Subscriptions -/

inductive QueueOrderingMode where
  | none
  | key
  deriving DecidableEq

/-- `domain.QueueSubscription`. -/
structure QueueSubscription where
  id : String
  appId : String
  name : String
  enabled : Bool
  pausedAt : Option Int
  drainingAt : Option Int
  drainDeadlineAt : Option Int
  drainedAt : Option Int
  eventTypes : List String
  maxAttempts : Int
  defaultVisibilitySeconds : Int
  maxVisibilitySeconds : Int
  maxTotalLeaseSeconds : Int
  retentionSeconds : Int
  maxInFlight : Int
  maxBatchSize : Int
  retryDelaySeconds : Int
  orderingMode : QueueOrderingMode
  deduplicationSeconds : Int
  maxDispatchRate : Option Int
  successCallbackURL : Option String
  failureCallbackURL : Option String
  resultCallbackMetadata : String
  policyVersion : Int
  createdAt : Int
  updatedAt : Int
  deriving DecidableEq

/-- `queue_subscription_drain_order`: the three drain columns are set in order. -/
def drainOrder (draining deadline drained : Option Int) : Bool :=
  match draining, deadline, drained with
  | none, none, none => true
  | some s, some d, none => decide (s ≤ d)
  | some s, some d, some e => decide (s ≤ d) && decide (s ≤ e)
  | _, _, _ => false

/-- The `CHECK` constraints of `queue_subscriptions`. -/
@[mk_iff]
structure QueueSubscription.Check (s : QueueSubscription) : Prop where
  maxAttempts : 1 ≤ s.maxAttempts ∧ s.maxAttempts ≤ 100
  defaultVisibility : 1 ≤ s.defaultVisibilitySeconds ∧ s.defaultVisibilitySeconds ≤ 900
  maxVisibility :
    s.defaultVisibilitySeconds ≤ s.maxVisibilitySeconds ∧ s.maxVisibilitySeconds ≤ 3600
  maxTotalLease :
    s.maxVisibilitySeconds ≤ s.maxTotalLeaseSeconds ∧ s.maxTotalLeaseSeconds ≤ 86400
  retention : 60 ≤ s.retentionSeconds ∧ s.retentionSeconds ≤ 2592000
  maxInFlight : 1 ≤ s.maxInFlight ∧ s.maxInFlight ≤ 10000
  maxBatchSize : 1 ≤ s.maxBatchSize ∧ s.maxBatchSize ≤ 100
  retryDelay : 0 ≤ s.retryDelaySeconds ∧ s.retryDelaySeconds ≤ 86400
  deduplication : 0 ≤ s.deduplicationSeconds ∧ s.deduplicationSeconds ≤ 86400
  maxDispatchRate : ∀ r ∈ s.maxDispatchRate, 1 ≤ r ∧ r ≤ 100000
  policyVersion : 0 < s.policyVersion
  paused : s.pausedAt = none ∨ s.enabled = true
  drain : drainOrder s.drainingAt s.drainDeadlineAt s.drainedAt = true

instance (s : QueueSubscription) : Decidable s.Check :=
  decidable_of_iff _ (QueueSubscription.check_iff s).symm

/-- A row of `queue_subscriptions`. -/
structure SubscriptionRow extends QueueSubscription where
  check : toQueueSubscription.Check

/-! ## Deliveries -/

/-- The lease columns of an in-flight delivery. -/
structure Lease where
  receiptHash : String
  startedAt : Int
  expiresAt : Int
  maxExpiresAt : Int
  deriving DecidableEq

/-- `queue_deliveries.status`, with the columns that go with it. -/
inductive QueueStatus where
  | available
  | inFlight (lease : Lease)
  | acked
  | deadLetter
  deriving DecidableEq

/-- A row of `queue_deliveries`. -/
structure DeliveryRow where
  id : String
  subscriptionId : String
  appId : String
  eventId : String
  generation : Nat
  status : QueueStatus
  attempts : Nat
  availableAt : Int
  orderingKey : Option String
  priority : Int
  metadata : String
  lastReason : Option String
  createdAt : Int
  updatedAt : Int
  expiresAt : Int
  deriving DecidableEq

namespace DeliveryRow

/-- The lease of an in-flight delivery. -/
def lease? (d : DeliveryRow) : Option Lease :=
  match d.status with
  | .inFlight l => some l
  | _ => none

/-- `status='in_flight'`. -/
def isInFlight (d : DeliveryRow) : Bool := d.lease?.isSome

/-- `status='available'`. -/
def isAvailable (d : DeliveryRow) : Bool := d.status = .available

/-- `status='dead_letter'`. -/
def isDeadLetter (d : DeliveryRow) : Bool := d.status = .deadLetter

/-- `status IN ('available','in_flight')`: the delivery is not finished. -/
def isActive (d : DeliveryRow) : Bool := d.isAvailable || d.isInFlight

/-- `status='in_flight' AND receipt_hash=$3 AND lease_expires_at>$7`, the guard of a settlement and
of a lease extension. -/
def holdsReceipt (hash : String) (now : Int) (d : DeliveryRow) : Bool :=
  match d.status with
  | .inFlight l => l.receiptHash = hash && decide (now < l.expiresAt)
  | _ => false

end DeliveryRow

/-! ## Attempt history -/

/-- `queue_delivery_attempts.outcome`. -/
inductive AttemptOutcome where
  | leased
  | ack
  | retry
  | deadLetter
  | visibilityTimeout
  deriving DecidableEq

/-- The outcomes that close an attempt. -/
def AttemptOutcome.closes : AttemptOutcome → Bool
  | .leased => false
  | _ => true

/-- A row of `queue_delivery_attempts`. -/
structure AttemptRow where
  deliveryId : String
  generation : Nat
  attempt : Nat
  outcome : AttemptOutcome
  reason : Option String
  occurredAt : Int
  deriving DecidableEq

/-- `UNIQUE (delivery_id, generation, attempt, outcome)`. -/
def AttemptRow.key (a : AttemptRow) : String × Nat × Nat × AttemptOutcome :=
  (a.deliveryId, a.generation, a.attempt, a.outcome)

/-! ## Result callbacks -/

inductive CallbackOutcome where
  | success
  | failure
  deriving DecidableEq

/-- The `payload` of a result callback. -/
structure CallbackPayload where
  appId : String
  subscriptionId : String
  deliveryId : String
  eventId : String
  generation : Nat
  outcome : CallbackOutcome
  attemptCount : Nat
  metadata : String
  deriving DecidableEq

/-- A row of `queue_result_callbacks` as it is inserted. The columns of the sending worker (`status`,
`attempts`, the claim) keep their defaults here. The primary key is a digest of
`(delivery_id, generation, outcome)`, the columns of the unique constraint, and is left out. -/
structure CallbackRow where
  appId : String
  subscriptionId : String
  deliveryId : String
  eventId : String
  generation : Nat
  outcome : CallbackOutcome
  url : String
  payload : CallbackPayload
  availableAt : Int
  createdAt : Int
  updatedAt : Int
  deriving DecidableEq

/-- `UNIQUE(delivery_id,generation,outcome)`. -/
def CallbackRow.key (c : CallbackRow) : String × Nat × CallbackOutcome :=
  (c.deliveryId, c.generation, c.outcome)

/-! ## Events, deduplication keys and schedules -/

/-- A row of `events`. -/
structure EventRow where
  id : String
  type : String
  sourceAppId : String
  targetAppIds : List String
  data : String
  createdAt : Int
  expiresAt : Int
  queueAvailableAt : Option Int
  queueOrderingKey : Option String
  queuePriority : Int
  queueMetadata : String
  deriving DecidableEq

/-- A row of `queue_deduplication_keys`. -/
structure DedupRow where
  subscriptionId : String
  keyHash : String
  eventId : String
  expiresAt : Int
  deriving DecidableEq

/-- A row of `queue_schedules`. -/
structure ScheduleRow where
  id : String
  appId : String
  subscriptionId : String
  name : String
  enabled : Bool
  cronExpression : String
  timezone : String
  eventType : String
  data : String
  orderingKey : Option String
  priority : Int
  metadata : String
  nextRunAt : Int
  lastRunAt : Option Int
  claim : Option (String × Int)
  claimGeneration : Nat
  policyVersion : Int
  createdAt : Int
  updatedAt : Int
  deriving DecidableEq

/-- A row of `queue_schedule_occurrences`. -/
structure OccurrenceRow where
  scheduleId : String
  scheduledAt : Int
  eventId : String
  createdAt : Int
  deriving DecidableEq

/-- The tables of the queue. -/
structure QueueDb where
  subscriptions : List SubscriptionRow := []
  deliveries : List DeliveryRow := []
  attempts : List AttemptRow := []
  callbacks : List CallbackRow := []
  events : List EventRow := []
  dedupKeys : List DedupRow := []
  schedules : List ScheduleRow := []
  occurrences : List OccurrenceRow := []

/-- The primary key of `queue_deliveries`. -/
abbrev QueueDb.Keyed (db : QueueDb) : Prop := (db.deliveries.map (·.id)).Nodup

/-- `SELECT … FROM queue_subscriptions WHERE app_id=$1 AND id=$2`. -/
def QueueDb.findSubscription (db : QueueDb) (appId id : String) : Option SubscriptionRow :=
  db.subscriptions.find? fun s => s.appId = appId && s.id = id

/-- `SELECT count(*) … WHERE subscription_id=$1 AND status='in_flight'`. -/
def inFlightCount (db : QueueDb) (subscriptionId : String) : Nat :=
  db.deliveries.countP fun d => d.subscriptionId = subscriptionId && d.isInFlight

end Queue

end RelayHub
