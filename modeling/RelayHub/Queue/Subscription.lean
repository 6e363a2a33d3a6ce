import RelayHub.Queue.Schema

/-! # RelayHub queue — subscriptions and their policies

Creating a subscription, replacing its policy under a version check, and draining it. A policy that
violates a `CHECK` constraint is not stored: the row type asks for the proof. None of these touches a
delivery. -/

namespace RelayHub.Queue

open Table

/-- `UNIQUE (app_id, name)`. -/
def sameName (a : QueueSubscription) (b : SubscriptionRow) : Bool :=
  b.appId = a.appId && b.name = a.name

/-- The defaults both writing statements fill in; a missing list of event types is the empty one. -/
def QueueSubscription.withDefaults (item : QueueSubscription) : QueueSubscription :=
  { item with
    resultCallbackMetadata :=
      if item.resultCallbackMetadata = "" then "\x7b\x7d" else item.resultCallbackMetadata }

def createQueueSubscription (item : QueueSubscription) (db : QueueDb) : Except StoreError QueueDb :=
  if h : item.withDefaults.Check then
    if db.subscriptions.any fun s => s.id = item.id || sameName item s then .error .conflict
    else .ok { db with subscriptions := db.subscriptions ++ [⟨item.withDefaults, h⟩] }
  else .error .database

/-- The columns a policy update writes; identity, drain state and creation time stay. -/
def updatedPolicy (item s : QueueSubscription) : QueueSubscription :=
  { item.withDefaults with
    id := s.id
    appId := s.appId
    drainingAt := s.drainingAt
    drainDeadlineAt := s.drainDeadlineAt
    drainedAt := s.drainedAt
    policyVersion := s.policyVersion + 1
    createdAt := s.createdAt }

/-- Replace the row with the id of `item` by `item`. -/
def storeSubscription (item : SubscriptionRow) (db : QueueDb) : QueueDb :=
  { db with
    subscriptions := updateWhere (fun s => s.id = item.id) (fun _ => item) db.subscriptions }

/-- `UPDATE … WHERE app_id=$1 AND id=$2 AND policy_version=$22`. -/
def updateQueueSubscription (item : QueueSubscription) (expectedVersion : Int) (db : QueueDb) :
    Except StoreError (QueueSubscription × QueueDb) :=
  match db.findSubscription item.appId item.id with
  | none => .error .notFound
  | some s =>
    if s.policyVersion ≠ expectedVersion then .error .conflict
    else if h : (updatedPolicy item s.toQueueSubscription).Check then
      if db.subscriptions.any fun t => t.id ≠ s.id && sameName item t then .error .conflict
      else
        let row : SubscriptionRow := ⟨updatedPolicy item s.toQueueSubscription, h⟩
        .ok (row.toQueueSubscription, storeSubscription row db)
    else .error .database

/-! ## Draining -/

/-- `QueueDrain.Status`. -/
inductive DrainStatus where
  | active
  | draining
  | drained
  | timedOut
  deriving DecidableEq

/-- `domain.QueueDrain`. -/
structure QueueDrain where
  subscriptionId : String
  status : DrainStatus
  inFlight : Nat
  startedAt : Option Int
  deadlineAt : Option Int
  completedAt : Option Int
  deriving DecidableEq

/-- The `SET` clause of `BeginQueueDrain`: a drain already begun keeps its times. -/
def beginDrainRow (startedAt deadlineAt : Int) (s : QueueSubscription) : QueueSubscription :=
  { s with
    drainingAt := some (s.drainingAt.getD startedAt)
    drainDeadlineAt := some (s.drainDeadlineAt.getD deadlineAt)
    policyVersion := if s.drainingAt.isNone then s.policyVersion + 1 else s.policyVersion
    updatedAt := startedAt }

/-- `GetQueueDrain` also records the completion of a drain the first time it sees no delivery in
flight. -/
def getQueueDrain (appId subscriptionId : String) (now : Int) (db : QueueDb) :
    Except StoreError (QueueDrain × QueueDb) :=
  match db.findSubscription appId subscriptionId with
  | none => .error .notFound
  | some s =>
    let inFlight := inFlightCount db s.id
    let drain (status : DrainStatus) (completedAt : Option Int) : QueueDrain :=
      { subscriptionId, status, inFlight, startedAt := s.drainingAt
        deadlineAt := s.drainDeadlineAt, completedAt }
    if s.drainingAt.isNone then .ok (drain .active s.drainedAt, db)
    else if inFlight = 0 then
      match s.drainedAt with
      | some t => .ok (drain .drained (some t), db)
      | none =>
        let row := { s.toQueueSubscription with drainedAt := some now, updatedAt := now }
        if h : row.Check then .ok (drain .drained (some now), storeSubscription ⟨row, h⟩ db)
        else .error .database
    else
      match s.drainDeadlineAt with
      | some deadline =>
        if deadline ≤ now then .ok (drain .timedOut s.drainedAt, db)
        else .ok (drain .draining s.drainedAt, db)
      | none => .ok (drain .draining s.drainedAt, db)

/-- `BeginQueueDrain` commits its update before it reads the drain, so the update stays when the
read fails. -/
def beginQueueDrain (appId subscriptionId : String) (startedAt deadlineAt : Int) (db : QueueDb) :
    Except StoreError QueueDrain × QueueDb :=
  match db.findSubscription appId subscriptionId with
  | none => (.error .notFound, db)
  | some s =>
    let row := beginDrainRow startedAt deadlineAt s.toQueueSubscription
    if h : row.Check then
      let db := storeSubscription ⟨row, h⟩ db
      match getQueueDrain appId subscriptionId startedAt db with
      | .error e => (.error e, db)
      | .ok (drain, db) => (.ok drain, db)
    else (.error .database, db)

end RelayHub.Queue
