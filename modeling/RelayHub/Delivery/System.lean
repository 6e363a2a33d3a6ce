import RelayHub.Delivery.Sinks
import RelayHub.Lib.Mealy

/-! # RelayHub deliveries — replay and the system

`ReplayAdminDeadLetters` opens a new generation of dead-lettered deliveries. `DeliveryOp` lists the
transactions of publishers, dispatchers, callback workers, stream sessions and administrators; a run
is any list of them, so it covers every interleaving of those parties and every way a broker publish
may end. A transaction that fails leaves the tables as they were. -/

namespace RelayHub.Delivery

open Table

/-- What is computed outside the store: SHA-256 as hex text, and the size of an encoded replay
result. -/
structure DeliveryEnv where
  sha256 : String → String
  resultSize : List ReplayItem → Nat

/-! ## Replay -/

/-- `adminread.ReplayCommand`. -/
structure ReplayCommand where
  deliveryIds : List String
  idempotencyKeyHash : String
  requestFingerprint : String
  actorId : String
  now : Int

def isHexDigest (value : String) : Bool :=
  value.utf8ByteSize = 64 && value.toList.all fun c =>
    ('0' ≤ c && c ≤ '9') || ('a' ≤ c && c ≤ 'f')

def validLifecycleValue (value : String) : Bool :=
  decide (value ≠ "") && decide (value.utf8ByteSize ≤ 256) && Text.trimSpace value = value

/-- The zero `time.Time`. -/
def zeroTime : Int := -62135596800 * second

def maxReplayBatch : Nat := 100

def ReplayCommand.validate (c : ReplayCommand) : Bool :=
  decide (1 ≤ c.deliveryIds.length) && decide (c.deliveryIds.length ≤ maxReplayBatch)
    && isHexDigest c.idempotencyKeyHash && isHexDigest c.requestFingerprint
    && decide (c.now ≠ zeroTime) && validLifecycleValue c.actorId
    && c.deliveryIds.all validLifecycleValue && decide c.deliveryIds.Nodup

def adminReplayRetention : Int := 86400 * second

/-- The `SET` clause of a replay on `deliveries`. -/
def DeliveryRow.replayed (now : Int) (d : DeliveryRow) : DeliveryRow :=
  { d with
    generation := d.generation + 1
    status := .pending
    attempts := 0
    assignment := none
    callbackLease := none
    callbackRetryAt := none
    callbackURL := none
    callbackCredentialVersion := none
    callbackReason := none
    callbackDLQPublishedAt := none
    updatedAt := now }

/-- The `SET` clause of a replay on `outbox`. -/
def OutboxRow.replayed (messageId : String) (now : Int) (o : OutboxRow) : OutboxRow :=
  { o with
    generation := o.generation + 1
    payload := { o.payload with generation := o.generation + 1 }
    messageId
    attempts := 0
    availableAt := now
    claim := none
    dispatchedAt := none
    failedAt := none
    lastError := none
    updatedAt := now }

/-- `SELECT … FROM deliveries d JOIN outbox o … WHERE d.id=ANY($1) AND d.status='dead_letter' ORDER BY
d.id`. -/
def replayRows (ids : List String) (db : DeliveryDb) : List (DeliveryRow × OutboxRow) :=
  ((db.deliveries.filter fun d => ids.contains d.id && d.status = .deadLetter).insertionSort
    fun a b => a.id ≤ b.id).flatMap fun d =>
      (db.outbox.filter (·.deliveryId = d.id)).map (d, ·)

variable (E : DeliveryEnv)

/-- One turn of the loop over the locked rows. -/
def replayOne (now : Int) (d : DeliveryRow) (o : OutboxRow) (db : DeliveryDb) : Except StoreError DeliveryDb :=
  let hit (x : DeliveryRow) : Bool :=
    x.id = d.id && x.generation = d.generation && x.status = .deadLetter
  let messageId := (outboxIdentities E.sha256 d.id).2 ++ "-g" ++ toString (d.generation + 1)
  let hitOutbox (x : OutboxRow) : Bool := x.id = o.id && x.generation = d.generation
  if o.payload.deliveryId ≠ d.id || o.payload.eventId ≠ d.eventId then .error .conflict
  else if !db.deliveries.any hit then .error .conflict
  else if !db.outbox.any hitOutbox then .error .conflict
  else if db.outbox.any fun x => decide (x.id ≠ o.id) && x.messageId = messageId then .error .database
  else
    .ok { db with
      deliveries := updateWhere hit (DeliveryRow.replayed now) db.deliveries
      outbox := updateWhere hitOutbox (OutboxRow.replayed messageId now) db.outbox }

def replayAll (E : DeliveryEnv) (now : Int) : List (DeliveryRow × OutboxRow) → DeliveryDb → Except StoreError DeliveryDb
  | [], db => .ok db
  | (d, o) :: rest, db =>
    match replayOne E now d o db with
    | .error e => .error e
    | .ok db => replayAll E now rest db

def replayItem (d : DeliveryRow) : ReplayItem where
  deliveryId := d.id
  eventId := d.eventId
  jobId := d.publicJobId
  fromGeneration := d.generation
  generation := d.generation + 1

/-- `ReplayAdminDeadLetters`; the flag says whether a stored result was returned. `clock` is
`clock_timestamp()`. -/
def replayAdminDeadLetters (c : ReplayCommand) (clock : Int) (db : DeliveryDb) :
    Except StoreError ((List ReplayItem × Bool) × DeliveryDb) :=
  if !c.validate then .error .invalidArgument
  else
    let db := { db with replayRequests := db.replayRequests.filter fun r => decide (clock < r.expiresAt) }
    match db.replayRequests.find? (·.idempotencyKeyHash = c.idempotencyKeyHash) with
    | some r =>
      if r.requestFingerprint ≠ c.requestFingerprint then .error .conflict
      else .ok ((r.result, true), db)
    | none =>
      let rows := replayRows c.deliveryIds db
      if rows.length ≠ c.deliveryIds.length then .error .conflict
      else
        match replayAll E c.now rows db with
        | .error e => .error e
        | .ok db =>
          let items := rows.map fun x => replayItem x.1
          if 64 * 1024 < E.resultSize items then .error .invalidArgument
          else
            .ok ((items, false), { db with
                replayRequests := db.replayRequests ++ [
                  { idempotencyKeyHash := c.idempotencyKeyHash
                    requestFingerprint := c.requestFingerprint
                    result := items
                    expiresAt := c.now + adminReplayRetention }] })

/-! ## The machine -/

inductive DeliveryOp where
  | insert (n : NewDelivery)
  | claim (now staleBefore : Int) (claimToken : String) (limit : Int) (skipped : List String)
  | beginPublish (outboxId claimToken : String) (now maxAttempts : Int)
  | markDispatched (outboxId claimToken : String) (now : Int)
  | retry (outboxId claimToken : String) (availableAt : Int) (reason : String) (clock : Int)
  | fail (outboxId claimToken : String) (now : Int) (reason : String)
  | beginCallback (deliveryId : String) (generation : Int) (token : String) (now lease : Int)
      (target : CallbackTarget)
  | finishCallback (deliveryId : String) (generation : Int) (token : String) (attempt : Int)
      (transition : CallbackAttemptTransition)
  | markDLQPublished (deliveryId : String) (generation now : Int)
  | assign (deliveryId targetAppId connectionId token : String)
      (generation now lease maxProcessing : Int)
  | acknowledge (deliveryId targetAppId connectionId token : String) (generation now : Int)
  | release (deliveryId targetAppId connectionId token : String) (generation now : Int)
  | progress (deliveryId targetAppId connectionId token : String) (generation now lease : Int)
  | replay (command : ReplayCommand) (clock : Int)

inductive DeliveryOut where
  | failed (error : StoreError)
  | done
  | claimed (rows : List (OutboxRow × Bool))
  | started (start : OutboxPublishStart)
  | callback (disposition : CallbackDisposition)
  | assignment (disposition : AssignmentDisposition)
  | replayed (items : List ReplayItem) (stored : Bool)

/-- A transaction that fails is rolled back. -/
def settleTx {α : Type} (out : α → DeliveryOut) (db : DeliveryDb) :
    Except StoreError (α × DeliveryDb) → DeliveryOut × DeliveryDb
  | .error e => (.failed e, db)
  | .ok (a, db') => (out a, db')

/-- The transaction of an operation. -/
def transact (db : DeliveryDb) : DeliveryOp → Except StoreError (DeliveryOut × DeliveryDb)
  | .insert n => (insertDeliveryAndOutbox E.sha256 n db).map (.done, ·)
  | .claim now staleBefore claimToken limit skipped =>
    (claimOutbox now staleBefore claimToken limit skipped db).map fun r => (.claimed r.1, r.2)
  | .beginPublish outboxId claimToken now maxAttempts =>
    (beginOutboxPublish outboxId claimToken now maxAttempts db).map fun r => (.started r.1, r.2)
  | .markDispatched outboxId claimToken now =>
    (markOutboxDispatched outboxId claimToken now db).map (.done, ·)
  | .retry outboxId claimToken availableAt reason clock =>
    (retryOutbox outboxId claimToken availableAt reason clock db).map (.done, ·)
  | .fail outboxId claimToken now reason =>
    (failOutbox outboxId claimToken now reason db).map (.done, ·)
  | .beginCallback deliveryId generation token now lease target =>
    (beginCallbackAttempt deliveryId generation token now lease target db).map fun r => (.callback r.1, r.2)
  | .finishCallback deliveryId generation token attempt transition =>
    (finishCallbackAttempt deliveryId generation token attempt transition db).map (.done, ·)
  | .markDLQPublished deliveryId generation now =>
    (markCallbackDLQPublished deliveryId generation now db).map (.done, ·)
  | .assign deliveryId targetAppId connectionId token generation now lease maxProcessing =>
    (assignStreamDelivery deliveryId targetAppId connectionId token generation now lease maxProcessing
      db).map fun r => (.assignment r.1, r.2)
  | .acknowledge deliveryId targetAppId connectionId token generation now =>
    (acknowledgeStreamDelivery deliveryId targetAppId connectionId token generation now db).map (.done, ·)
  | .release deliveryId targetAppId connectionId token generation now =>
    (releaseStreamDelivery deliveryId targetAppId connectionId token generation now db).map (.done, ·)
  | .progress deliveryId targetAppId connectionId token generation now lease =>
    (progressStreamDelivery deliveryId targetAppId connectionId token generation now lease db).map (.done, ·)
  | .replay command clock =>
    (replayAdminDeadLetters E command clock db).map fun r => (.replayed r.1.1 r.1.2, r.2)

/-- The deliveries as a machine. -/
def deliverySystem : Mealy DeliveryDb DeliveryOp DeliveryOut where
  exec db op := settleTx id db (transact E db op)

theorem next_eq (db : DeliveryDb) (op : DeliveryOp) : (deliverySystem E).next db op = match transact E db op with
      | .error _ => db
      | .ok r => r.2 := by
  show (settleTx id db (transact E db op)).2 = _
  cases transact E db op <;> rfl

theorem map_ok {α β : Type} {f : α → β} {x : Except StoreError α} {b : β} (h : x.map f = .ok b) :
    ∃ a, x = .ok a ∧ f a = b := by
  cases x with
  | error => cases h
  | ok a => exact ⟨a, rfl, Except.ok.inj h⟩

/-- The tables after a run from an empty database. -/
def reach (ops : List DeliveryOp) : DeliveryDb := (deliverySystem E).run {} ops

/-! ## A sample -/

/-- SHA-256 as it is on one delivery and its target. -/
def sampleEnv : DeliveryEnv where
  sha256 s :=
    if s = "outbox\x00dlv_1" then "52d2018ad272800d25b0361fd645bc27d76a5e1e3e8c2f08a5270451ed9e9367"
    else if s = "app_1" then "d1437d2e5c547d465e30964f82b0f4cf16981729f764dc9e50b37da93609552e"
    else "sha256 " ++ s
  resultSize _ := 0

def sampleDelivery : NewDelivery where
  deliveryId := "dlv_1"
  jobId := "job_1"
  eventId := "evt_1"
  event := "\x7b\x7d"
  sourceAppId := "app_0"
  targetAppId := "app_1"
  sink := .callback
  createdAt := 0

end RelayHub.Delivery
