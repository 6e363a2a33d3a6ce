import RelayHub.Queue.Schema

/-! # RelayHub deliveries — the tables

The rows behind the push sinks: `deliveries`, `outbox`, `delivery_attempts` and
`admin_replay_requests`. A publication writes one `deliveries` row and one `outbox` row for each sink of
a target; the dispatcher hands the `outbox` row to the broker, and a callback worker or a stream
session finishes the delivery.

* Timestamps and durations are integers: microseconds.
* The five assignment columns are all null or all set and in order (`deliveries_assignment_complete`),
  so they are one optional `Assignment`; the two callback lease columns are one optional
  `CallbackLease` (`deliveries_callback_lease_complete`), and `claimed_at`, `claim_token` one `Claim`.
* `delivery_lifecycle`, `delivery_replays` and `audit_log` are only written, so they are left out. -/

namespace RelayHub.Delivery

inductive Sink where
  | stream
  | callback
  deriving DecidableEq

/-- `deliveries_status_check`. -/
inductive DeliveryStatus where
  | pending
  | dispatched
  | retrying
  | delivered
  | acked
  | deadLetter
  deriving DecidableEq

/-- `acked`, `delivered` and `dead_letter` end a generation. -/
def DeliveryStatus.isTerminal : DeliveryStatus → Bool
  | .acked | .delivered | .deadLetter => true
  | _ => false

/-- The assignment of a delivery to a stream connection. -/
structure Assignment where
  connectionId : String
  token : String
  startedAt : Int
  expiresAt : Int
  maxExpiresAt : Int
  started_le : startedAt ≤ expiresAt
  le_max : expiresAt ≤ maxExpiresAt
  deriving DecidableEq

/-- The lease of a running callback attempt. -/
structure CallbackLease where
  token : String
  expiresAt : Int
  deriving DecidableEq

/-- A row of `deliveries`. -/
structure DeliveryRow where
  id : String
  publicJobId : String
  eventId : String
  sourceAppId : String
  targetAppId : String
  sink : Sink
  status : DeliveryStatus
  attempts : Nat
  generation : Nat
  assignment : Option Assignment
  callbackLease : Option CallbackLease
  callbackRetryAt : Option Int
  callbackURL : Option String
  callbackCredentialVersion : Option Int
  callbackReason : Option String
  callbackDLQPublishedAt : Option Int
  createdAt : Int
  updatedAt : Int
  deriving DecidableEq

/-- The stored `outboxEnvelope`. The store reads the id of the event back; the rest of it is text. -/
structure OutboxEnvelope where
  deliveryId : String
  generation : Nat
  eventId : String
  event : String
  deriving DecidableEq

structure Claim where
  claimedAt : Int
  token : String
  deriving DecidableEq

/-- A row of `outbox`. -/
structure OutboxRow where
  id : String
  eventId : String
  deliveryId : String
  subject : String
  payload : OutboxEnvelope
  messageId : String
  attempts : Nat
  availableAt : Int
  claim : Option Claim
  dispatchedAt : Option Int
  failedAt : Option Int
  lastError : Option String
  generation : Nat
  createdAt : Int
  updatedAt : Int
  deriving DecidableEq

/-- `dispatched_at IS NULL AND failed_at IS NULL`. -/
def OutboxRow.isPending (o : OutboxRow) : Bool := o.dispatchedAt.isNone && o.failedAt.isNone

inductive AttemptOutcome where
  | started
  | delivered
  | retrying
  | deadLetter
  deriving DecidableEq

/-- A row of `delivery_attempts`. -/
structure AttemptRow where
  deliveryId : String
  generation : Nat
  attempt : Nat
  outcome : AttemptOutcome
  reason : Option String
  callbackToken : Option String
  createdAt : Int
  updatedAt : Int
  deriving DecidableEq

/-- `UNIQUE(delivery_id,generation,attempt)`. -/
def AttemptRow.key (a : AttemptRow) : String × Nat × Nat := (a.deliveryId, a.generation, a.attempt)

/-- `adminread.ReplayItem`; its `Status` is always `pending`. -/
structure ReplayItem where
  deliveryId : String
  eventId : String
  jobId : String
  fromGeneration : Nat
  generation : Nat
  deriving DecidableEq

/-- A row of `admin_replay_requests`. -/
structure ReplayRequestRow where
  idempotencyKeyHash : String
  requestFingerprint : String
  result : List ReplayItem
  expiresAt : Int
  deriving DecidableEq

structure DeliveryDb where
  deliveries : List DeliveryRow := []
  outbox : List OutboxRow := []
  attempts : List AttemptRow := []
  replayRequests : List ReplayRequestRow := []

/-- The primary key of `deliveries`. -/
abbrev DeliveryDb.Keyed (db : DeliveryDb) : Prop := (db.deliveries.map (·.id)).Nodup

end RelayHub.Delivery
