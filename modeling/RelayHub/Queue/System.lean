import RelayHub.Lib.Mealy
import RelayHub.Queue.Enqueue
import RelayHub.Queue.Subscription

/-! # RelayHub queue — the system

`QueueOp` lists the operations on the queue tables and `exec` runs one. An operation that fails
leaves the tables as they were. A run is a list of operations, each with its own arguments and its
own clock; `queue D` is the machine that runs them, and every state of the system is
`reach D ops`, the tables after the operations `ops` on an empty database.

Settlements and extensions enter item by item; `settleQueueDeliveries_run` says that a whole call is
such a run. Subscriptions and schedules are not deleted here. -/

namespace RelayHub.Queue

/-- An operation on the queue. -/
inductive QueueOp where
  | createSubscription (item : QueueSubscription)
  | updateSubscription (item : QueueSubscription) (expectedVersion : Int)
  | beginDrain (appId subscriptionId : String) (startedAt deadlineAt : Int)
  | getDrain (appId subscriptionId : String) (now : Int)
  | createSchedule (item : ScheduleRow)
  | updateSchedule (item : ScheduleRow) (expectedVersion : Int)
  | claimSchedules (now claimUntil : Int) (token : String) (limit : Nat)
  | completeSchedule (scheduleId claimToken : String) (claimGeneration : Nat)
      (occurrenceAt nextRunAt now : Int)
  | publish (publication : QueuePublication)
  | pull (request : QueuePullRequest) (gaps : Nat → List DeadLetterOp)
  | settle (appId subscriptionId : String) (settlement : QueueSettlement) (now : Int)
  | extend (appId subscriptionId : String) (extension : QueueLeaseExtension) (now : Int)
  | replay (appId subscriptionId : String) (ids : List String) (now : Int)
  | delete (appId subscriptionId : String) (ids : List String)

/-- What an operation returns. -/
inductive QueueOut where
  | failed (error : StoreError)
  | done
  | pulled (deliveries : List QueueDelivery)
  | settled (status : SettlementStatus)
  | extended (status : SettlementStatus)
  | count (n : Nat)
  | drain (drain : QueueDrain)
  | subscription (item : QueueSubscription)
  | schedules (items : List ScheduleRow)

/-- A transaction that fails is rolled back. -/
def commit {α : Type} (out : α → QueueOut) (db : QueueDb) : Except StoreError (α × QueueDb) → QueueOut × QueueDb
  | .error e => (.failed e, db)
  | .ok (a, db') => (out a, db')

/-- The same for a transaction without a result. -/
def commitDone (db : QueueDb) : Except StoreError QueueDb → QueueOut × QueueDb
  | .error e => (.failed e, db)
  | .ok db' => (.done, db')

variable (D : Digests)

/-- The completion a scheduler asks for. -/
def occurrenceCompletion (scheduleId claimToken : String) (claimGeneration : Nat)
    (occurrenceAt nextRunAt now : Int) : QueueScheduleCompletion :=
  { scheduleId, claimToken, claimGeneration, occurrenceAt, nextRunAt, now
    eventId := (scheduleOccurrenceIDs D scheduleId occurrenceAt).1
    deliveryId := (scheduleOccurrenceIDs D scheduleId occurrenceAt).2 }

/-- One item of a settlement, under the subscription row it is settled with. -/
def settleStep (appId subscriptionId : String) (settlement : QueueSettlement)
    (now : Int) (db : QueueDb) : Except StoreError (SettlementStatus × QueueDb) :=
  match db.findSubscription appId subscriptionId with
  | none => .error .notFound
  | some sub => settleQueueDelivery D sub.toQueueSubscription settlement now db

/-- One item of a lease extension. -/
def extendStep (appId subscriptionId : String) (extension : QueueLeaseExtension)
    (now : Int) (db : QueueDb) : Except StoreError (SettlementStatus × QueueDb) :=
  match db.findSubscription appId subscriptionId with
  | none => .error .notFound
  | some _ => .ok (extendQueueLease D appId subscriptionId extension now db)

/-- One operation. -/
def exec (db : QueueDb) : QueueOp → QueueOut × QueueDb
  | .createSubscription item => commitDone db (createQueueSubscription item db)
  | .updateSubscription item expectedVersion =>
    commit .subscription db (updateQueueSubscription item expectedVersion db)
  | .beginDrain appId subscriptionId startedAt deadlineAt =>
    match beginQueueDrain appId subscriptionId startedAt deadlineAt db with
    | (.error e, db) => (.failed e, db)
    | (.ok drain, db) => (.drain drain, db)
  | .getDrain appId subscriptionId now =>
    commit .drain db (getQueueDrain appId subscriptionId now db)
  | .createSchedule item => commitDone db (createQueueSchedule item db)
  | .updateSchedule item expectedVersion =>
    commitDone db (updateQueueSchedule item expectedVersion db)
  | .claimSchedules now claimUntil token limit =>
    let (items, db) := claimDueQueueSchedules now claimUntil token limit db
    (.schedules items, db)
  | .completeSchedule scheduleId claimToken claimGeneration occurrenceAt nextRunAt now =>
    commitDone db (completeQueueSchedule
      (occurrenceCompletion D scheduleId claimToken claimGeneration occurrenceAt nextRunAt now) db)
  | .publish publication => commitDone db (publishQueue D publication db)
  | .pull request gaps => commit .pulled db (pullQueueDeliveries D gaps db request)
  | .settle appId subscriptionId settlement now =>
    commit .settled db (settleStep D appId subscriptionId settlement now db)
  | .extend appId subscriptionId extension now =>
    commit .extended db (extendStep D appId subscriptionId extension now db)
  | .replay appId subscriptionId ids now =>
    let (n, db) := replayQueueDeadLetters db appId subscriptionId ids now
    (.count n, db)
  | .delete appId subscriptionId ids =>
    let (n, db) := deleteQueueDeadLetters db appId subscriptionId ids
    (.count n, db)

/-- The queue as a machine. -/
def queue : Mealy QueueDb QueueOp QueueOut where
  exec := exec D

/-- The tables after a run from an empty database. -/
def reach (ops : List QueueOp) : QueueDb := (queue D).run {} ops

/-! ## A small subscription

The concrete runs below the theorems use one subscription, `qsub_1` of `app_1`, and these digests,
which are the real ones on the receipts and ids of those runs. -/

def sampleDigests : Digests where
  sha256 r :=
    if r = "qrc_1" then "56b971f5eafa65f3a33efef02e18fa01963947cba0e7619272a46551f98286fb"
    else if r = "qrc_2" then "7c38bc9620c0188ca70fe7724d06fdbd3729cc2fe7cb67236a2ecbf1055700fc"
    else if r = "qrc_3" then "89c2136682c320b90960f17afe92f0f5842f07e4eaa940a58c135e5b96b22f16"
    else "sha256 " ++ r
  md5 s :=
    if s = "5:evt_1qsub_1" then "e334738e77c1801e09b19d74af8d6104"
    else if s = "5:evt_2qsub_1" then "2ce4e1f7546ac282d16d0437963327a3"
    else "md5 " ++ s
  occurrence id t := id ++ toString t

def sampleSubscription : QueueSubscription where
  id := "qsub_1"
  appId := "app_1"
  name := "orders"
  enabled := true
  pausedAt := none
  drainingAt := none
  drainDeadlineAt := none
  drainedAt := none
  eventTypes := []
  maxAttempts := 2
  defaultVisibilitySeconds := 60
  maxVisibilitySeconds := 300
  maxTotalLeaseSeconds := 3600
  retentionSeconds := 604800
  maxInFlight := 100
  maxBatchSize := 20
  retryDelaySeconds := 5
  orderingMode := .none
  deduplicationSeconds := 0
  maxDispatchRate := none
  successCallbackURL := none
  failureCallbackURL := none
  resultCallbackMetadata := "\x7b\x7d"
  policyVersion := 1
  createdAt := 0
  updatedAt := 0

def samplePublication (eventId : String) (createdAt : Int) : QueuePublication where
  eventId := eventId
  eventType := "order.created"
  sourceAppId := "app_2"
  targetAppIds := ["app_1"]
  data := "\x7b\x7d"
  createdAt := createdAt
  eventExpiresAt := createdAt + 604800 * second
  queueAvailableAt := none
  queueOrderingKey := none
  queuePriority := 0
  queueMetadata := "\x7b\x7d"
  queueDedupHash := ""

def samplePull (now : Int) (receipts : List String) : QueueOp :=
  .pull
    { appId := "app_1"
      subscriptionId := "qsub_1"
      limit := receipts.length
      visibility := 0
      now := now
      receipts := receipts }
    fun _ => []

def sampleSettle (receipt : String) (disposition : QueueSettlementDisposition) (now : Int) : QueueOp :=
  .settle "app_1" "qsub_1"
    { receipt := receipt
      disposition := disposition
      delay := 0
      reason := "" }
    now

end RelayHub.Queue
