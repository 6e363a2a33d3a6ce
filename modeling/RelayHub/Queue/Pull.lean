import Mathlib.Data.List.Sort
import Mathlib.Data.String.Basic
import RelayHub.Queue.Schema

/-! # RelayHub queue — pull, replay and delete

`PullQueueDeliveries` is one transaction under `SELECT … FOR UPDATE` on the subscription row:

1. `reclaimExpired`: leases past their expiry go back to `available`, or to `dead_letter` once
   the attempts are used up, and the attempt is closed in the history;
2. `insertFailureCallbacks`: a failure callback for each delivery just exhausted;
3. `expireRetained`: available deliveries past their retention are dead-lettered;
4. the in-flight count and, if a rate is set, the leases of the last second bound the batch;
5. `selectDeliveries` picks the due deliveries in order, and each gets a lease.

Settlements, extensions, publications, schedules and policy updates wait for the subscription row.
`ReplayQueueDeadLetters` and `DeleteQueueDeadLetters` are single statements that do not lock it, so
they may commit between the statements of a pull: `gaps k` lists the ones that do so in the `k`-th
gap. Rows the pull has already written look unchanged to them (the writes are not committed), hence
not dead-lettered, so `interleave` takes those ids out.

The `READ COMMITTED` selection runs `FOR UPDATE … SKIP LOCKED`; no other transaction holds a lock on
an available delivery while the subscription row is locked, so nothing is skipped. -/

namespace RelayHub.Queue

open Table

/-- The digests that PostgreSQL and `crypto/sha256` compute. `sha256` and `md5` give the hex text;
`occurrence` is the hex text of the first 16 bytes of the SHA-256 of a schedule id and an occurrence
time. -/
structure Digests where
  sha256 : String → String
  md5 : String → String
  occurrence : String → Int → String

variable (D : Digests)

def queueReceiptHash (receipt : String) : String := D.sha256 receipt

/-! ## Replay and delete -/

/-- The rows a replay or a delete names: `s.id=d.subscription_id AND s.app_id=$1 AND s.id=$2 AND
d.id=ANY($3) AND d.status='dead_letter'`. -/
def deadLetterTarget (db : QueueDb) (appId subscriptionId : String) (ids : List String) (d : DeliveryRow) : Bool :=
  (db.findSubscription appId subscriptionId).isSome && d.subscriptionId = subscriptionId
    && ids.contains d.id && d.isDeadLetter

/-- The `SET` clause of a replay. `expires_at` keeps its value. -/
def replayRow (now : Int) (d : DeliveryRow) : DeliveryRow :=
  { d with
    status := .available
    generation := d.generation + 1
    attempts := 0
    availableAt := now
    lastReason := none
    updatedAt := now }

def replayQueueDeadLetters (db : QueueDb) (appId subscriptionId : String) (ids : List String)
    (now : Int) : Nat × QueueDb :=
  let target := deadLetterTarget db appId subscriptionId ids
  (db.deliveries.countP target, { db with deliveries := updateWhere target (replayRow now) db.deliveries })

/-- The attempt rows of a deleted delivery go with it (`ON DELETE CASCADE`). -/
def deleteQueueDeadLetters (db : QueueDb) (appId subscriptionId : String) (ids : List String) : Nat × QueueDb :=
  let target := deadLetterTarget db appId subscriptionId ids
  (db.deliveries.countP target, { db with
      deliveries := db.deliveries.filter fun d => !target d
      attempts := db.attempts.filter fun a =>
        !db.deliveries.any fun d => target d && d.id = a.deliveryId })

/-- A replay or a delete that commits between two statements of a pull. -/
inductive DeadLetterOp where
  | replay (appId subscriptionId : String) (ids : List String) (now : Int)
  | delete (appId subscriptionId : String) (ids : List String)

/-- The statement on `db`, with the ids in `locked` taken out. -/
def DeadLetterOp.apply (locked : List String) (db : QueueDb) : DeadLetterOp → QueueDb
  | .replay appId subscriptionId ids now =>
    (replayQueueDeadLetters db appId subscriptionId (ids.filter (!locked.contains ·)) now).2
  | .delete appId subscriptionId ids =>
    (deleteQueueDeadLetters db appId subscriptionId (ids.filter (!locked.contains ·))).2

/-- The statements of one gap, in commit order. -/
def interleave (locked : List String) (ops : List DeadLetterOp) (db : QueueDb) : QueueDb :=
  ops.foldl (DeadLetterOp.apply locked) db

/-! ## The statements of a pull -/

/-- `status='in_flight' AND lease_expires_at<=$2`. -/
def DeliveryRow.leaseExpired (now : Int) (d : DeliveryRow) : Bool :=
  match d.status with
  | .inFlight l => decide (l.expiresAt ≤ now)
  | _ => false

/-- The `SET` clause of the reclaim statement. -/
def reclaimRow (sub : QueueSubscription) (now : Int) (d : DeliveryRow) : DeliveryRow :=
  match d.status with
  | .inFlight l =>
    if sub.maxAttempts ≤ d.attempts then
      { d with
        status := .deadLetter
        lastReason := some "max_attempts_exhausted"
        updatedAt := now }
    else
      { d with
        status := .available
        availableAt := l.expiresAt + sub.retryDelaySeconds * second
        lastReason := some "visibility_timeout"
        updatedAt := now }
  | _ => d

/-- The history row of a reclaimed delivery, from the row as the update returns it. -/
def reclaimAttempt (now : Int) (d : DeliveryRow) : AttemptRow :=
  { deliveryId := d.id
    generation := d.generation
    attempt := d.attempts
    outcome := if d.isDeadLetter then .deadLetter else .visibilityTimeout
    reason := d.lastReason
    occurredAt := now }

/-- The rows the reclaim statement of a pull on `subscriptionId` touches. -/
def reclaimable (subscriptionId : String) (now : Int) (d : DeliveryRow) : Bool :=
  d.subscriptionId = subscriptionId && d.leaseExpired now

def reclaimExpired (sub : QueueSubscription) (now : Int) (db : QueueDb) : QueueDb :=
  let hit := reclaimable sub.id now
  { db with
    deliveries := updateWhere hit (reclaimRow sub now) db.deliveries
    attempts := insertAllIgnore AttemptRow.key db.attempts
      ((db.deliveries.filter hit).map fun d => reclaimAttempt now (reclaimRow sub now d)) }

/-- A row of `queue_result_callbacks` with the columns both inserting statements give. -/
def resultCallback (appId subscriptionId deliveryId eventId : String) (generation attempts : Nat)
    (outcome : CallbackOutcome) (url metadata : String) (now : Int) : CallbackRow :=
  { appId, subscriptionId, deliveryId, eventId, generation, outcome, url
    payload :=
      { appId, subscriptionId, deliveryId, eventId, generation, outcome
        attemptCount := attempts
        metadata }
    availableAt := now
    createdAt := now
    updatedAt := now }

/-- `d.status='dead_letter' AND d.updated_at=$2 AND d.last_reason='max_attempts_exhausted'`. -/
def justExhausted (subscriptionId : String) (now : Int) (d : DeliveryRow) : Bool :=
  d.subscriptionId = subscriptionId && d.isDeadLetter && d.updatedAt = now
    && d.lastReason = some "max_attempts_exhausted"

def insertFailureCallbacks (sub : QueueSubscription) (now : Int) (db : QueueDb) : QueueDb :=
  match sub.failureCallbackURL with
  | none => db
  | some url =>
    { db with
      callbacks := insertAllIgnore CallbackRow.key db.callbacks ((db.deliveries.filter (justExhausted sub.id now)).map
          fun d => resultCallback d.appId d.subscriptionId d.id d.eventId d.generation d.attempts
            .failure url sub.resultCallbackMetadata now) }

/-- `status='available' AND expires_at<=$2`. -/
def retentionExpired (subscriptionId : String) (now : Int) (d : DeliveryRow) : Bool :=
  d.subscriptionId = subscriptionId && d.isAvailable && decide (d.expiresAt ≤ now)

def expireRow (now : Int) (d : DeliveryRow) : DeliveryRow :=
  { d with
    status := .deadLetter
    lastReason := some "retention_expired"
    updatedAt := now }

def expireRetained (sub : QueueSubscription) (now : Int) (db : QueueDb) : QueueDb :=
  { db with
    deliveries := updateWhere (retentionExpired sub.id now) (expireRow now) db.deliveries }

/-! ## The batch -/

/-- `store.QueuePullRequest`. -/
structure QueuePullRequest where
  appId : String
  subscriptionId : String
  limit : Int
  visibility : Int
  now : Int
  receipts : List String

/-- A history row of a lease of `subscriptionId` granted after `since`. The join with
`queue_deliveries` is on its primary key, so it gives at most one row for each attempt. -/
def leasedSince (db : QueueDb) (subscriptionId : String) (since : Int) (a : AttemptRow) : Bool :=
  a.outcome = .leased && decide (since < a.occurredAt)
    && db.deliveries.any fun d => d.id = a.deliveryId && d.subscriptionId = subscriptionId

/-- The leases of the last second. -/
def recentlyDispatched (db : QueueDb) (subscriptionId : String) (now : Int) : Nat :=
  db.attempts.countP (leasedSince db subscriptionId (now - second))

/-- The number of deliveries the pull may lease; `none` when it commits without selecting any. The
in-flight count is read from `db`, the leases of the last second, one statement later, from `db'`. -/
def pullLimit (sub : QueueSubscription) (request : QueuePullRequest) (db db' : QueueDb) : Option Int :=
  let batch := min request.limit sub.maxBatchSize
  let capacity := sub.maxInFlight - inFlightCount db sub.id
  if capacity ≤ 0 then none
  else
    match sub.maxDispatchRate with
    | none => some (min batch capacity)
    | some rate =>
      let rateCapacity := rate - recentlyDispatched db' sub.id request.now
      if rateCapacity ≤ 0 then none else some (min (min batch capacity) rateCapacity)

/-- The visibility of the new leases. -/
def pullVisibility (sub : QueueSubscription) (request : QueuePullRequest) : Int :=
  let visibility :=
    if request.visibility ≤ 0 then sub.defaultVisibilitySeconds * second else request.visibility
  min visibility (sub.maxVisibilitySeconds * second)

/-- `(a.created_at,a.id)<(b.created_at,b.id)`. -/
def DeliveryRow.precedes (a b : DeliveryRow) : Bool :=
  decide (a.createdAt < b.createdAt) || (a.createdAt = b.createdAt && decide (a.id < b.id))

/-- An unfinished delivery of the same subscription and ordering key stands before `d`. SQL equality
is never true of a null key. -/
def blocked (db : QueueDb) (d : DeliveryRow) : Bool :=
  d.orderingKey.isSome && db.deliveries.any fun e =>
    e.subscriptionId = d.subscriptionId && e.orderingKey = d.orderingKey && e.isActive && e.precedes d

/-- The `WHERE` clause of the selection. -/
def pullable (sub : QueueSubscription) (now : Int) (db : QueueDb) (d : DeliveryRow) : Bool :=
  d.subscriptionId = sub.id && d.isAvailable && decide (d.availableAt ≤ now) && decide (now < d.expiresAt)
    && (sub.orderingMode = .none || !blocked db d)

/-- `LEAST(10,d.priority+FLOOR(EXTRACT(EPOCH FROM ($2-d.available_at))/60)::integer)`: priority
grows by one for each minute of waiting. -/
def effectivePriority (now : Int) (d : DeliveryRow) : Int :=
  min 10 (d.priority + (now - d.availableAt) / (60 * second))

/-- The `ORDER BY` of the selection. -/
def pullOrder (now : Int) (a b : DeliveryRow) : Bool :=
  let pa := effectivePriority now a
  let pb := effectivePriority now b
  decide (pb < pa) || (pa = pb && (decide (a.availableAt < b.availableAt) || (a.availableAt = b.availableAt &&
      (decide (a.createdAt < b.createdAt) || (a.createdAt = b.createdAt && decide (a.id ≤ b.id))))))

/-- The selected deliveries with their events, in order. -/
def selectDeliveries (sub : QueueSubscription) (now : Int) (limit : Nat) (db : QueueDb) :
    List (DeliveryRow × EventRow) :=
  let due := (db.deliveries.filter (pullable sub now db)).filterMap fun d =>
    (db.events.find? fun e => e.id = d.eventId).map fun e => (d, e)
  (due.insertionSort fun a b => pullOrder now a.1 b.1 = true).take limit

/-! ## Leasing -/

/-- `domain.Event` as a pull fills it. -/
structure PulledEvent where
  id : String
  type : String
  sourceAppId : String
  targetAppIds : List String
  data : String
  createdAt : Int
  deriving DecidableEq

/-- `domain.QueueDelivery`. -/
structure QueueDelivery where
  id : String
  subscriptionId : String
  event : PulledEvent
  receipt : String
  attempt : Nat
  generation : Nat
  leaseExpiresAt : Int
  orderingKey : String
  priority : Int
  metadata : String
  deriving DecidableEq

/-- A stored attempt has the unique key of `row`: inserting `row` is an error. -/
def attemptTaken (attempts : List AttemptRow) (row : AttemptRow) : Bool :=
  attempts.any fun a => a.key = row.key

/-- What the leases of one pull have in common. -/
structure LeaseTerms where
  subscriptionId : String
  now : Int
  expiresAt : Int
  maxExpiresAt : Int

def leaseTerms (sub : QueueSubscription) (request : QueuePullRequest) : LeaseTerms :=
  { subscriptionId := request.subscriptionId
    now := request.now
    expiresAt := request.now + pullVisibility sub request
    maxExpiresAt := request.now + sub.maxTotalLeaseSeconds * second }

/-- The `SET` clause of the lease statement, for the row `item` as it was selected. -/
def leaseRow (terms : LeaseTerms) (hash : String) (item d : DeliveryRow) : DeliveryRow :=
  { d with
    status := .inFlight
      { receiptHash := hash
        startedAt := terms.now
        expiresAt := terms.expiresAt
        maxExpiresAt := terms.maxExpiresAt }
    attempts := item.attempts + 1
    updatedAt := terms.now }

def leasedAttempt (terms : LeaseTerms) (item : DeliveryRow) : AttemptRow :=
  { deliveryId := item.id
    generation := item.generation
    attempt := item.attempts + 1
    outcome := .leased
    reason := none
    occurredAt := terms.now }

/-- What the pull returns for a selected delivery. -/
def leasedDelivery (terms : LeaseTerms) (receipt : String) (item : DeliveryRow) (e : EventRow) : QueueDelivery :=
  { id := item.id
    subscriptionId := terms.subscriptionId
    event :=
      { id := item.eventId
        type := e.type
        sourceAppId := e.sourceAppId
        targetAppIds := e.targetAppIds
        data := e.data
        createdAt := e.createdAt }
    receipt := receipt
    attempt := item.attempts + 1
    generation := item.generation
    leaseExpiresAt := terms.expiresAt
    orderingKey := item.orderingKey.getD ""
    priority := item.priority
    metadata := item.metadata }

/-- The tables after `item` got its lease. -/
def leasedDb (terms : LeaseTerms) (receipt : String) (item : DeliveryRow) (db : QueueDb) : QueueDb :=
  { db with
    deliveries := updateWhere (fun d => d.id = item.id) (leaseRow terms (queueReceiptHash D receipt) item) db.deliveries
    attempts := db.attempts ++ [leasedAttempt terms item] }

/-- The two statements that lease one selected delivery. -/
def leaseDelivery (terms : LeaseTerms) (receipt : String) (item : DeliveryRow)
    (db : QueueDb) : Except StoreError QueueDb :=
  if attemptTaken db.attempts (leasedAttempt terms item) then .error .database
  else .ok (leasedDb D terms receipt item db)

/-- The loop over the selection, from the `k`-th gap on. Running out of receipts is a conflict. -/
def leaseSelected (D : Digests) (gaps : Nat → List DeadLetterOp) (locked : List String)
    (terms : LeaseTerms) : Nat → List (DeliveryRow × EventRow) → List String → QueueDb →
      Except StoreError (List QueueDelivery × QueueDb)
  | _, [], _, db => .ok ([], db)
  | _, _ :: _, [], _ => .error .conflict
  | k, (item, e) :: rest, receipt :: receipts, db =>
    match leaseDelivery D terms receipt item (interleave locked (gaps k) db) with
    | .error err => .error err
    | .ok db =>
      match leaseSelected D gaps locked terms (k + 1) rest receipts db with
      | .error err => .error err
      | .ok (leased, db) => .ok (leasedDelivery terms receipt item e :: leased, db)

/-! ## The transaction -/

/-- The ids of the rows a condition holds of. -/
def idsWhere (p : DeliveryRow → Bool) (db : QueueDb) : List String :=
  (db.deliveries.filter p).map DeliveryRow.id

/-- The statements before the counts, with the ids of the rows they have written. -/
def pullPrepare (gaps : Nat → List DeadLetterOp) (sub : QueueSubscription) (now : Int)
    (db : QueueDb) : QueueDb × List String :=
  let reclaimed := idsWhere (reclaimable sub.id now) db
  let db := interleave reclaimed (gaps 0) (reclaimExpired sub now db)
  let db := interleave reclaimed (gaps 1) (insertFailureCallbacks sub now db)
  let written := reclaimed ++ idsWhere (retentionExpired sub.id now) db
  (interleave written (gaps 2) (expireRetained sub now db), written)

/-- The pull once its subscription row is locked and found ready. -/
def pullReady (gaps : Nat → List DeadLetterOp) (sub : QueueSubscription)
    (request : QueuePullRequest) (db : QueueDb) : Except StoreError (List QueueDelivery × QueueDb) :=
  let (db, written) := pullPrepare gaps sub request.now db
  let db' := interleave written (gaps 3) db
  match pullLimit sub request db db' with
  | none => .ok ([], db')
  | some limit =>
    -- a negative `LIMIT` is an error of the statement
    if limit < 0 then .error .database
    else
      let db := interleave written (gaps 4) db'
      leaseSelected D gaps written (leaseTerms sub request) 5
        (selectDeliveries sub request.now limit.toNat db) request.receipts db

def pullQueueDeliveries (gaps : Nat → List DeadLetterOp) (db : QueueDb)
    (request : QueuePullRequest) : Except StoreError (List QueueDelivery × QueueDb) :=
  match db.findSubscription request.appId request.subscriptionId with
  | none => .error .notFound
  | some sub =>
    if sub.drainingAt.isSome then .ok ([], db)
    else if !sub.enabled || sub.pausedAt.isSome then .error .conflict
    else pullReady D gaps sub.toQueueSubscription request db

end RelayHub.Queue
