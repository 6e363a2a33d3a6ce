import Mathlib.Data.List.Sort
import RelayHub.Delivery.Tables
import RelayHub.Lib.Text

/-! # RelayHub deliveries — the outbox

`insertDeliveryAndOutbox` is the part of a publication that creates a delivery. `ClaimOutbox`,
`BeginOutboxPublish`, `MarkOutboxDispatched`, `RetryOutbox` and `FailOutbox` are the transactions of a
dispatcher. Each of the last four locks its `outbox` row first and touches its delivery in one
statement, so each is one step. -/

namespace RelayHub.Delivery

open Table

/-! ## Creation -/

variable (sha256 : String → String)

/-- `outboxIdentities`: the id and the message id of the outbox row of a delivery. -/
def outboxIdentities (deliveryId : String) : String × String :=
  let encoded := sha256 ("outbox\x00" ++ deliveryId)
  ("obx_" ++ String.ofList (encoded.toList.take 32), "rh-v1-" ++ encoded)

/-- What `insertDeliveryAndOutbox` is given; `event` is the encoded event. -/
structure NewDelivery where
  deliveryId : String
  jobId : String
  eventId : String
  event : String
  sourceAppId : String
  targetAppId : String
  sink : Sink
  createdAt : Int

/-- The number that lower-case hexadecimal digits spell. -/
def hexNat (digits : List Char) : Nat :=
  digits.foldl (fun n c => 16 * n + if c.isDigit then c.toNat - '0'.toNat else c.toNat - 'a'.toNat + 10) 0

/-- `AppToken` of a valid application id: the first 160 bits of its digest in lower-case base 32. -/
def appToken (appId : String) : String :=
  let n := hexNat ((sha256 appId).toList.take 40)
  String.ofList ((List.range 32).map fun i =>
    "abcdefghijklmnopqrstuvwxyz234567".toList.getD (n / 32 ^ (31 - i) % 32) 'a')

/-- `deliverySubject`: one subject for each application, or one of 64 callback shards. -/
def deliverySubject (appId : String) : Sink → String
  | .stream => "rh.v1.delivery." ++ appToken sha256 appId
  | .callback =>
    let shard := hexNat ((sha256 appId).toList.take 4) % 64
    "rh.v1.callback." ++ (if shard < 10 then "00" else "0") ++ toString shard

def NewDelivery.row (n : NewDelivery) : DeliveryRow where
  id := n.deliveryId
  publicJobId := n.jobId
  eventId := n.eventId
  sourceAppId := n.sourceAppId
  targetAppId := n.targetAppId
  sink := n.sink
  status := .pending
  attempts := 0
  generation := 1
  assignment := none
  callbackLease := none
  callbackRetryAt := none
  callbackURL := none
  callbackCredentialVersion := none
  callbackReason := none
  callbackDLQPublishedAt := none
  createdAt := n.createdAt
  updatedAt := n.createdAt

def NewDelivery.outboxRow (n : NewDelivery) : OutboxRow where
  id := (outboxIdentities sha256 n.deliveryId).1
  eventId := n.eventId
  deliveryId := n.deliveryId
  subject := deliverySubject sha256 n.targetAppId n.sink
  payload := { deliveryId := n.deliveryId, generation := 1, eventId := n.eventId, event := n.event }
  messageId := (outboxIdentities sha256 n.deliveryId).2
  attempts := 0
  availableAt := n.createdAt
  claim := none
  dispatchedAt := none
  failedAt := none
  lastError := none
  generation := 1
  createdAt := n.createdAt
  updatedAt := n.createdAt

/-- The unique constraints of `deliveries`. -/
def DeliveryRow.clashes (a b : DeliveryRow) : Bool :=
  a.id = b.id || (a.eventId = b.eventId && a.targetAppId = b.targetAppId && a.sink = b.sink)

/-- The unique constraints of `outbox`. -/
def OutboxRow.clashes (a b : OutboxRow) : Bool :=
  a.id = b.id || a.deliveryId = b.deliveryId || a.messageId = b.messageId

def insertDeliveryAndOutbox (n : NewDelivery) (db : DeliveryDb) : Except StoreError DeliveryDb :=
  if db.deliveries.any (DeliveryRow.clashes n.row) then .error .conflict
  else if db.outbox.any (OutboxRow.clashes (n.outboxRow sha256)) then .error .conflict
  else
    .ok { db with
      deliveries := db.deliveries ++ [n.row]
      outbox := db.outbox ++ [n.outboxRow sha256] }

/-! ## Claims -/

/-- `dispatched_at IS NULL AND failed_at IS NULL AND available_at<=$1 AND (claimed_at IS NULL OR
claimed_at<=$2)`. -/
def OutboxRow.claimable (now staleBefore : Int) (o : OutboxRow) : Bool :=
  o.isPending && decide (o.availableAt ≤ now) && match o.claim with
    | none => true
    | some c => decide (c.claimedAt ≤ staleBefore)

/-- `ORDER BY available_at,created_at,id`. -/
def OutboxRow.claimsBefore (a b : OutboxRow) : Bool :=
  decide (a.availableAt < b.availableAt) || (a.availableAt = b.availableAt &&
    (decide (a.createdAt < b.createdAt) || (a.createdAt = b.createdAt && decide (a.id ≤ b.id))))

/-- The rows a claim takes. Rows that another transaction has locked are skipped. -/
def claimCandidates (now staleBefore : Int) (limit : Nat) (skipped : List String) (db : DeliveryDb) : List OutboxRow :=
  ((db.outbox.filter fun o => o.claimable now staleBefore && !skipped.contains o.id).insertionSort
    fun a b => a.claimsBefore b = true).take limit

/-- `ClaimOutbox`, with the claimed rows as they are returned and whether each was reclaimed. -/
def claimOutbox (now staleBefore : Int) (claimToken : String) (limit : Int) (skipped : List String)
    (db : DeliveryDb) : Except StoreError (List (OutboxRow × Bool) × DeliveryDb) :=
  if claimToken = "" || decide (limit < 1) || decide (1000 < limit) || decide (now < staleBefore) then
    .error .invalidArgument
  else
    let chosen := claimCandidates now staleBefore limit.toNat skipped db
    let claimed (o : OutboxRow) : OutboxRow := { o with claim := some ⟨now, claimToken⟩, updatedAt := now }
    .ok (chosen.map fun o => (claimed o, o.claim.isSome),
      { db with outbox := updateWhere (fun o => (chosen.map (·.id)).contains o.id) claimed db.outbox })

/-! ## Publishing -/

/-- `id=$1 AND claim_token=$2 AND dispatched_at IS NULL AND failed_at IS NULL`. -/
def OutboxRow.heldBy (outboxId claimToken : String) (o : OutboxRow) : Bool :=
  o.id = outboxId && o.claim.any (fun c => c.token = claimToken) && o.isPending

/-- The outbox row of a dispatcher that still holds its claim. Empty arguments are refused. -/
def claimedRow (outboxId claimToken : String) (db : DeliveryDb) : Option OutboxRow :=
  if outboxId = "" || claimToken = "" then none
  else db.outbox.find? (OutboxRow.heldBy outboxId claimToken)

/-! ## Terminal failures -/

/-- The columns that `deliveries_assignment_complete` ranges over. -/
structure AssignmentColumns where
  connectionId : Option String
  token : Option String
  expiresAt : Option Int
  startedAt : Option Int
  maxExpiresAt : Option Int

def DeliveryRow.assignmentColumns (d : DeliveryRow) : AssignmentColumns where
  connectionId := d.assignment.map (·.connectionId)
  token := d.assignment.map (·.token)
  expiresAt := d.assignment.map (·.expiresAt)
  startedAt := d.assignment.map (·.startedAt)
  maxExpiresAt := d.assignment.map (·.maxExpiresAt)

/-- `deliveries_assignment_complete`. -/
def AssignmentColumns.complete : AssignmentColumns → Bool
  | ⟨none, none, none, none, none⟩ => true
  | ⟨some _, some _, some expiresAt, some startedAt, some maxExpiresAt⟩ =>
    decide (startedAt ≤ expiresAt) && decide (expiresAt ≤ maxExpiresAt)
  | _ => false

/-- `assigned_connection_id=NULL,assignment_token=NULL,assignment_expires_at=NULL`. -/
def AssignmentColumns.cleared (c : AssignmentColumns) : AssignmentColumns :=
  { c with connectionId := none, token := none, expiresAt := none }

theorem cleared_complete_iff (d : DeliveryRow) : d.assignmentColumns.cleared.complete = true ↔ d.assignment = none := by
  cases h : d.assignment <;>
    simp [DeliveryRow.assignmentColumns, AssignmentColumns.cleared, AssignmentColumns.complete, h]

/-- `status='dead_letter', updated_at=GREATEST(updated_at,$2)`. -/
def DeliveryRow.deadLettered (now : Int) (d : DeliveryRow) : DeliveryRow :=
  { d with status := .deadLetter, updatedAt := max d.updatedAt now }

/-- The `deliveries` update of a terminal outbox failure: `SET status='dead_letter',
assigned_connection_id=NULL, assignment_token=NULL, assignment_expires_at=NULL … WHERE status!='acked'`, under
the constraint `deliveries_assignment_complete`. -/
def deadLetterUnacked (deliveryId : String) (now : Int) (db : DeliveryDb) : Except StoreError (List DeliveryRow) :=
  let hit (d : DeliveryRow) : Bool := d.id = deliveryId && decide (d.status ≠ .acked)
  if db.deliveries.any fun d => hit d && !d.assignmentColumns.cleared.complete then .error .database
  else
    .ok (updateWhere hit (DeliveryRow.deadLettered now) db.deliveries)

/-- The failed outbox row. -/
def OutboxRow.fail (now : Int) (reason : String) (o : OutboxRow) : OutboxRow :=
  { o with failedAt := some now, claim := none, lastError := some reason, updatedAt := now }

/-- Both tables after a terminal outbox failure. -/
def failRow (o : OutboxRow) (now : Int) (reason : String) (db : DeliveryDb) : Except StoreError DeliveryDb :=
  match deadLetterUnacked o.deliveryId now db with
  | .error e => .error e
  | .ok deliveries =>
    .ok { db with
      deliveries
      outbox := updateWhere (fun x => x.id = o.id) (OutboxRow.fail now reason) db.outbox }

/-- `store.OutboxPublishStart`. -/
structure OutboxPublishStart where
  attempt : Nat
  exhausted : Bool
  deriving DecidableEq

def beginOutboxPublish (outboxId claimToken : String) (now maxAttempts : Int) (db : DeliveryDb) :
    Except StoreError (OutboxPublishStart × DeliveryDb) :=
  if maxAttempts < 1 then .error .conflict
  else
    match claimedRow outboxId claimToken db with
    | none => .error .conflict
    | some o =>
      if maxAttempts ≤ o.attempts then
        match failRow o now "max_attempts" db with
        | .error e => .error e
        | .ok db => .ok (⟨o.attempts, true⟩, db)
      else
        .ok (⟨o.attempts + 1, false⟩, { db with
            outbox := updateWhere (fun x => x.id = outboxId)
              (fun x => { x with attempts := o.attempts + 1, updatedAt := max x.updatedAt now })
              db.outbox })

/-- The `deliveries` update of a dispatched or retried outbox row: `WHERE id=$1 AND status NOT IN
('acked','dead_letter')`. -/
def advanceOpen (deliveryId : String) (status : DeliveryStatus) (stamp : Int → Int)
    (deliveries : List DeliveryRow) : List DeliveryRow :=
  updateWhere (fun d => d.id = deliveryId && decide (d.status ≠ .acked) && decide (d.status ≠ .deadLetter))
    (fun d => { d with status, updatedAt := stamp d.updatedAt }) deliveries

def markOutboxDispatched (outboxId claimToken : String) (now : Int) (db : DeliveryDb) : Except StoreError DeliveryDb :=
  if outboxId = "" || claimToken = "" then .error .conflict
  else
    match claimedRow outboxId claimToken db with
    | some o =>
      .ok { db with
        deliveries := advanceOpen o.deliveryId .dispatched (max · now) db.deliveries
        outbox := updateWhere (fun x => x.id = o.id) (fun x => { x with
            dispatchedAt := some now, claim := none, lastError := none, updatedAt := now })
          db.outbox }
    | none =>
      match db.outbox.find? (·.id = outboxId) with
      | none => .error .notFound
      | some o => if o.dispatchedAt.isSome then .ok db else .error .conflict

def safeOutboxReason (reason : String) : String :=
  let reason := Text.toLower (Text.trimSpace reason)
  if ["broker_unavailable", "publish_timeout", "publish_rejected", "store_error"].contains reason then
    reason
  else "publish_error"

/-- `RetryOutbox`; `clock` is `clock_timestamp()`. -/
def retryOutbox (outboxId claimToken : String) (availableAt : Int) (reason : String) (clock : Int)
    (db : DeliveryDb) : Except StoreError DeliveryDb :=
  match claimedRow outboxId claimToken db with
  | none => .error .conflict
  | some o =>
    .ok { db with
      deliveries := advanceOpen o.deliveryId .retrying (fun _ => clock) db.deliveries
      outbox := updateWhere (fun x => x.id = o.id) (fun x => { x with
          availableAt, claim := none, lastError := some (safeOutboxReason reason), updatedAt := clock })
        db.outbox }

def failOutbox (outboxId claimToken : String) (now : Int) (reason : String) (db : DeliveryDb) :
    Except StoreError DeliveryDb :=
  match claimedRow outboxId claimToken db with
  | none => .error .conflict
  | some o => failRow o now (safeOutboxReason reason) db

end RelayHub.Delivery
