import RelayHub.Queue.Pull

/-! # RelayHub queue — settlements and lease extensions

`SettleQueueDeliveries` and `ExtendQueueLeases` hold `FOR SHARE` on the subscription row and treat
their items one after another. `settleQueueDelivery` and `extendQueueLease` are the bodies of the two
loops; the statements of one item touch only the row that holds the receipt and what hangs from it,
and that row stays locked, so an item is one step. Two settling transactions may interleave item by
item. -/

namespace RelayHub.Queue

open Table

/-- `store.QueueSettlementDisposition`. Any other text falls into the default case of the loop. -/
inductive QueueSettlementDisposition where
  | ack
  | retry
  | deadLetter
  | other (text : String)
  deriving DecidableEq

/-- `store.QueueSettlement`. -/
structure QueueSettlement where
  receipt : String
  disposition : QueueSettlementDisposition
  delay : Int
  reason : String

/-- `store.QueueLeaseExtension`. -/
structure QueueLeaseExtension where
  receipt : String
  extension : Int

/-- The `status` of a `store.QueueSettlementResult`. -/
inductive SettlementStatus where
  | invalidReceipt
  | acked
  | available
  | deadLetter
  | extended
  deriving DecidableEq

/-- `store.QueueSettlementResult`. -/
structure QueueSettlementResult where
  receipt : String
  status : SettlementStatus
  deriving DecidableEq

/-- `NULLIF(text,'')`. -/
def nullIfEmpty (text : String) : Option String := if text = "" then none else some text

/-! ## Settle -/

/-- The status a disposition asks for. -/
inductive NextStatus where
  | acked
  | available
  | deadLetter
  deriving DecidableEq

/-- The `switch` on the disposition: the next status and `available_at`. -/
def settleTarget (settlement : QueueSettlement) (now : Int) : Option (NextStatus × Int) :=
  match settlement.disposition with
  | .retry => some (.available, now + settlement.delay)
  | .deadLetter => some (.deadLetter, now)
  | .ack => some (.acked, now)
  | .other _ => none

/-- `$4='available' AND attempts >= $8`: a retry past the budget. -/
def retryExhausted (maxAttempts : Int) (next : NextStatus) (d : DeliveryRow) : Bool :=
  next = .available && decide (maxAttempts ≤ d.attempts)

/-- The `SET` clause of a settlement. -/
def settleRow (maxAttempts : Int) (next : NextStatus) (availableAt : Int) (reason : String)
    (now : Int) (d : DeliveryRow) : DeliveryRow :=
  let exhausted := retryExhausted maxAttempts next d
  { d with
    status :=
      if exhausted then .deadLetter
      else match next with
        | .acked => .acked
        | .available => .available
        | .deadLetter => .deadLetter
    availableAt := availableAt
    lastReason := if exhausted then some "max_attempts_exhausted" else nullIfEmpty reason
    updatedAt := now }

variable (D : Digests)

/-- The rows an item may change: `subscription_id=$1 AND app_id=$2 AND receipt_hash=$3 AND
status='in_flight' AND lease_expires_at>$7`. -/
def receiptTarget (appId subscriptionId receipt : String) (now : Int) (d : DeliveryRow) : Bool :=
  d.subscriptionId = subscriptionId && d.appId = appId && d.holdsReceipt (queueReceiptHash D receipt) now

/-- The history row of a settlement, for the row as the update returns it. -/
def settleAttempt (settlement : QueueSettlement) (next : NextStatus) (now : Int) (d : DeliveryRow) : AttemptRow :=
  let exhausted : Bool := d.isDeadLetter && decide (next = .available)
  { deliveryId := d.id
    generation := d.generation
    attempt := d.attempts
    outcome :=
      if exhausted then .deadLetter
      else match next with
        | .acked => .ack
        | .available => .retry
        | .deadLetter => .deadLetter
    reason := if exhausted then some "max_attempts_exhausted" else nullIfEmpty settlement.reason
    occurredAt := now }

/-- The result status of a settled row. -/
def settledStatus (d : DeliveryRow) : SettlementStatus :=
  match d.status with
  | .acked => .acked
  | .deadLetter => .deadLetter
  | _ => .available

/-- `insertQueueResultCallback`, called for a row that is now `acked` or `dead_letter`. -/
def insertQueueResultCallback (sub : QueueSubscription) (d : DeliveryRow) (now : Int)
    (callbacks : List CallbackRow) : List CallbackRow :=
  let (outcome, url) :=
    if d.isDeadLetter then (CallbackOutcome.failure, sub.failureCallbackURL)
    else (CallbackOutcome.success, sub.successCallbackURL)
  match url with
  | none => callbacks
  | some url =>
    insertIgnore CallbackRow.key callbacks
      (resultCallback sub.appId sub.id d.id d.eventId d.generation d.attempts outcome url
        sub.resultCallbackMetadata now)

/-- The tables after a settlement whose update returned the row `d` first. The update changes every
row that holds the receipt; the history and the callback are written for `d`. -/
def settledDb (sub : QueueSubscription) (settlement : QueueSettlement)
    (next : NextStatus) (availableAt now : Int) (d : DeliveryRow) (db : QueueDb) : QueueDb :=
  let settled := settleRow sub.maxAttempts next availableAt settlement.reason now
  { db with
    deliveries :=
      updateWhere (receiptTarget D sub.appId sub.id settlement.receipt now) settled db.deliveries
    attempts := db.attempts ++ [settleAttempt settlement next now (settled d)]
    callbacks :=
      if (settled d).isAvailable then db.callbacks
      else insertQueueResultCallback sub (settled d) now db.callbacks }

/-- One item of `SettleQueueDeliveries`. -/
def settleQueueDelivery (sub : QueueSubscription) (settlement : QueueSettlement)
    (now : Int) (db : QueueDb) : Except StoreError (SettlementStatus × QueueDb) :=
  match settleTarget settlement now with
  | none => .ok (.invalidReceipt, db)
  | some (next, availableAt) =>
    match db.deliveries.find? (receiptTarget D sub.appId sub.id settlement.receipt now) with
    | none => .ok (.invalidReceipt, db)
    | some d =>
      let row := settleRow sub.maxAttempts next availableAt settlement.reason now d
      if attemptTaken db.attempts (settleAttempt settlement next now row) then .error .database
      else .ok (settledStatus row, settledDb D sub settlement next availableAt now d db)

/-- The loop of `SettleQueueDeliveries`. -/
def settleAll (D : Digests) (sub : QueueSubscription) (now : Int) :
    List QueueSettlement → QueueDb → Except StoreError (List QueueSettlementResult × QueueDb)
  | [], db => .ok ([], db)
  | settlement :: rest, db =>
    match settleQueueDelivery D sub settlement now db with
    | .error e => .error e
    | .ok (status, db) =>
      match settleAll D sub now rest db with
      | .error e => .error e
      | .ok (results, db) => .ok (⟨settlement.receipt, status⟩ :: results, db)

def settleQueueDeliveries (db : QueueDb) (appId subscriptionId : String)
    (settlements : List QueueSettlement) (now : Int) :
    Except StoreError (List QueueSettlementResult × QueueDb) :=
  match db.findSubscription appId subscriptionId with
  | none => .error .notFound
  | some sub => settleAll D sub.toQueueSubscription now settlements db

/-! ## Extend -/

/-- The `SET` clause of an extension: a lease never passes its maximum. -/
def extendRow (extension : Int) (now : Int) (d : DeliveryRow) : DeliveryRow :=
  match d.status with
  | .inFlight l =>
    { d with
      status := .inFlight { l with expiresAt := min (l.expiresAt + extension) l.maxExpiresAt }
      updatedAt := now }
  | _ => d

/-- One item of `ExtendQueueLeases`: the receipt is accepted when the update changed one row. -/
def extendQueueLease (appId subscriptionId : String)
    (extension : QueueLeaseExtension) (now : Int) (db : QueueDb) : SettlementStatus × QueueDb :=
  let target := receiptTarget D appId subscriptionId extension.receipt now
  (if db.deliveries.countP target = 1 then .extended else .invalidReceipt,
    { db with deliveries := updateWhere target (extendRow extension.extension now) db.deliveries })

end RelayHub.Queue
