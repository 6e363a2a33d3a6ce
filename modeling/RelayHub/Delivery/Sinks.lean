import RelayHub.Delivery.Outbox

/-! # RelayHub deliveries — callback workers and stream sessions

`BeginCallbackAttempt` and `FinishCallbackAttempt` bracket the HTTP request of a callback worker;
`AssignStreamDelivery`, `AcknowledgeStreamDelivery`, `ReleaseStreamDelivery` and `ProgressStreamDelivery` serve
a stream connection. The first statement of each locks the delivery, so each is one step.

What `BeginCallbackAttempt` reads from `applications`, `application_credentials` and `events` may change
at any time, so it is an argument (`CallbackTarget`). -/

namespace RelayHub.Delivery

open Table DeliveryRow

/-! ## Callbacks -/

/-- `domain.DeliveryMode`. -/
inductive DeliveryMode where
  | callback
  | all
  | other (text : String)
  deriving DecidableEq

/-- What the join of `BeginCallbackAttempt` reads beside the delivery and its outbox row. -/
structure CallbackTarget where
  eventExpiresAt : Int
  enabled : Bool
  callbackURL : Option String
  deliveryMode : DeliveryMode
  /-- Whether an unrevoked credential has an encrypted secret, and whether that can be decrypted. -/
  hasSecret : Bool
  decrypts : Bool
  credentialVersion : Option Int

/-- `eligible`, with the values it lets through. -/
def CallbackTarget.eligible (t : CallbackTarget) : Option (String × Int) :=
  match t.callbackURL, t.credentialVersion with
  | some url, some version =>
    if t.enabled && decide (url ≠ "") && (t.deliveryMode = .callback || t.deliveryMode = .all)
        && t.hasSecret then some (url, version)
    else none
  | _, _ => none

/-- `store.CallbackDispatchDisposition`. -/
inductive CallbackDisposition where
  | ready
  | busy
  | complete
  | deadLetter
  deriving DecidableEq

def callbackFinishMargin : Int := second

/-- A callback delivery given up before an attempt. -/
def DeliveryRow.giveUp (reason : String) (now : Int) (d : DeliveryRow) : DeliveryRow :=
  { d with
    status := .deadLetter
    callbackReason := some reason
    callbackLease := none
    updatedAt := now }

/-- A callback delivery with a new attempt. -/
def DeliveryRow.startAttempt (token : String) (expiresAt : Int) (url : String) (version now : Int)
    (d : DeliveryRow) : DeliveryRow :=
  { d with
    status := .dispatched
    attempts := d.attempts + 1
    callbackLease := some ⟨token, expiresAt⟩
    callbackRetryAt := none
    callbackURL := some url
    callbackCredentialVersion := some version
    callbackReason := none
    updatedAt := now }

/-- The history row of that attempt. -/
def DeliveryRow.started (token : String) (now : Int) (d : DeliveryRow) : AttemptRow where
  deliveryId := d.id
  generation := d.generation
  attempt := d.attempts + 1
  outcome := .started
  reason := none
  callbackToken := some token
  createdAt := now
  updatedAt := now

/-- `BeginCallbackAttempt` once the row is locked and its generation is the asked one. -/
def beginLocked (d : DeliveryRow) (token : String) (now lease : Int) (target : CallbackTarget)
    (db : DeliveryDb) : Except StoreError (CallbackDisposition × DeliveryDb) :=
  let store (f : DeliveryRow → DeliveryRow) : DeliveryDb :=
    { db with deliveries := updateWhere (fun x => x.id = d.id) f db.deliveries }
  if d.status = .acked || d.status = .delivered then .ok (.complete, db)
  else if d.status = .deadLetter then .ok (.deadLetter, db)
  else if d.callbackRetryAt.any (fun t => decide (now < t)) then .ok (.busy, db)
  else if d.callbackLease.any (fun l => decide (l.token ≠ "") && decide (now < l.expiresAt)) then
    .ok (.busy, db)
  else if decide (target.eventExpiresAt ≤ now) || decide (6 ≤ d.attempts) then
    .ok (.deadLetter, store (giveUp (if 6 ≤ d.attempts then "attempts_exhausted" else "event_expired") now))
  else
    match target.eligible with
    | none => .ok (.deadLetter, store (giveUp "callback_disabled" now))
    | some (url, version) =>
      if !target.decrypts then .error .database
      else
        let db := store (startAttempt token (now + lease) url version now)
        .ok (.ready, { db with attempts := insertIgnore AttemptRow.key db.attempts (d.started token now) })

def beginCallbackAttempt (deliveryId : String) (generation : Int) (token : String) (now lease : Int)
    (target : CallbackTarget) (db : DeliveryDb) :
    Except StoreError (CallbackDisposition × DeliveryDb) :=
  if deliveryId = "" || decide (generation < 1) || token = "" || decide (lease ≤ callbackFinishMargin)
  then .error .conflict
  else
    match db.deliveries.find? (fun d => d.id = deliveryId && d.sink = .callback),
        db.outbox.find? (·.deliveryId = deliveryId) with
    | some d, some o =>
      if (d.generation : Int) ≠ generation || (o.generation : Int) ≠ generation then .error .conflict
      else beginLocked d token now lease target db
    | _, _ => .error .notFound

/-- The `Status` of a `store.CallbackAttemptTransition`. -/
inductive TransitionStatus where
  | delivered
  | pending
  | deadLetter
  | other
  deriving DecidableEq

/-- `store.CallbackAttemptTransition`. -/
structure CallbackAttemptTransition where
  status : TransitionStatus
  now : Int
  retryAt : Option Int
  reason : String

/-- The status and the attempt outcome a transition asks for. -/
def CallbackAttemptTransition.target (t : CallbackAttemptTransition) : Option (DeliveryStatus × AttemptOutcome) :=
  match t.status with
  | .delivered => some (.delivered, .delivered)
  | .pending => if t.retryAt.isNone then none else some (.retrying, .retrying)
  | .deadLetter => some (.deadLetter, .deadLetter)
  | .other => none

/-- `id=$1 AND sink='callback' AND generation=$2 AND callback_token=$3 AND attempts=$4 AND
callback_expires_at>$5`. The status is not looked at. -/
def DeliveryRow.runsAttempt (deliveryId : String) (generation : Int) (token : String) (attempt now : Int)
    (d : DeliveryRow) : Bool :=
  d.id = deliveryId && d.sink = .callback && decide ((d.generation : Int) = generation)
    && d.callbackLease.any (fun l => l.token = token && decide (now < l.expiresAt))
    && decide ((d.attempts : Int) = attempt)

/-- The `SET` clause of `FinishCallbackAttempt`. -/
def DeliveryRow.finish (status : DeliveryStatus) (t : CallbackAttemptTransition) (d : DeliveryRow) : DeliveryRow :=
  { d with
    status
    callbackRetryAt := t.retryAt
    callbackReason := some t.reason
    callbackLease := none
    updatedAt := t.now }

def AttemptRow.isAttempt (deliveryId : String) (generation attempt : Int) (a : AttemptRow) : Bool :=
  a.deliveryId = deliveryId && decide ((a.generation : Int) = generation) && decide ((a.attempt : Int) = attempt)

/-- The repeated call: the attempt has ended with exactly this transition. -/
def alreadyFinished (deliveryId : String) (generation : Int) (token : String) (attempt : Int)
    (t : CallbackAttemptTransition) (status : DeliveryStatus) (outcome : AttemptOutcome)
    (db : DeliveryDb) : Bool :=
  match db.deliveries.find? (fun d => d.id = deliveryId && decide ((d.generation : Int) = generation)
      && decide ((d.attempts : Int) = attempt)),
    db.attempts.find? (AttemptRow.isAttempt deliveryId generation attempt) with
  | some d, some a =>
    d.status = status && a.outcome = outcome && a.callbackToken = some token
      && a.reason.getD "" = t.reason && d.callbackRetryAt = t.retryAt
  | _, _ => false

def finishCallbackAttempt (deliveryId : String) (generation : Int) (token : String) (attempt : Int)
    (t : CallbackAttemptTransition) (db : DeliveryDb) : Except StoreError DeliveryDb :=
  match t.target with
  | none => .error .conflict
  | some (status, outcome) =>
    let hit := runsAttempt deliveryId generation token attempt t.now
    if db.deliveries.any hit then
      if db.attempts.any (AttemptRow.isAttempt deliveryId generation attempt) then
        .ok { db with
          deliveries := updateWhere hit (finish status t) db.deliveries
          attempts := updateWhere (AttemptRow.isAttempt deliveryId generation attempt)
            (fun a => { a with outcome, reason := some t.reason, updatedAt := t.now }) db.attempts }
      else .error .conflict
    else if alreadyFinished deliveryId generation token attempt t status outcome db then .ok db
    else .error .conflict

def markCallbackDLQPublished (deliveryId : String) (generation now : Int) (db : DeliveryDb) :
    Except StoreError DeliveryDb :=
  let hit (d : DeliveryRow) : Bool :=
    d.id = deliveryId && decide ((d.generation : Int) = generation) && d.sink = .callback && d.status = .deadLetter
  if db.deliveries.any hit then
    .ok { db with
      deliveries := updateWhere hit (fun d => { d with
        callbackDLQPublishedAt := some (d.callbackDLQPublishedAt.getD now)
        updatedAt := max d.updatedAt now }) db.deliveries }
  else .error .conflict

/-! ## Streams -/

/-- `store.DeliveryAssignmentDisposition`. -/
inductive AssignmentDisposition where
  | assigned
  | alreadyComplete
  | alreadyAssigned
  deriving DecidableEq

/-- The assignment of `AssignStreamDelivery`; its argument check keeps the columns in order. -/
def newAssignment (connectionId token : String) (now lease maxProcessing : Int) : Option Assignment :=
  if h : 0 < lease ∧ lease ≤ maxProcessing then
    some
      { connectionId, token
        startedAt := now
        expiresAt := now + lease
        maxExpiresAt := now + maxProcessing
        started_le := by omega
        le_max := by omega }
  else none

def assignStreamDelivery (deliveryId targetAppId connectionId token : String) (generation : Int)
    (now lease maxProcessing : Int) (db : DeliveryDb) :
    Except StoreError (AssignmentDisposition × DeliveryDb) :=
  if deliveryId = "" || targetAppId = "" || connectionId = "" || token = "" || decide (generation < 1)
  then .error .conflict
  else
    match newAssignment connectionId token now lease maxProcessing with
    | none => .error .conflict
    | some assignment =>
      match db.deliveries.find? (·.id = deliveryId) with
      | none => .error .notFound
      | some d =>
        if d.targetAppId ≠ targetAppId || d.sink ≠ .stream then .error .notFound
        else if (d.generation : Int) ≠ generation then .error .conflict
        else if d.status = .acked || d.status = .deadLetter then .ok (.alreadyComplete, db)
        else if d.assignment.any (fun a => decide (now < a.expiresAt)) then .ok (.alreadyAssigned, db)
        else
          .ok (.assigned, { db with
              deliveries := updateWhere (fun x => x.id = deliveryId) (fun x => { x with
                  assignment := some assignment
                  attempts := d.attempts + 1
                  updatedAt := max x.updatedAt now }) db.deliveries })

/-- `id=$1 AND target_app_id=$2 AND sink='stream' AND assigned_connection_id=$3 AND assignment_token=$4 AND
generation=$5 AND assignment_expires_at>$6 AND status NOT IN ('acked','dead_letter')`. -/
def DeliveryRow.assignedTo (deliveryId targetAppId connectionId token : String) (generation now : Int)
    (d : DeliveryRow) : Bool :=
  d.id = deliveryId && d.targetAppId = targetAppId && d.sink = .stream
    && d.assignment.any (fun a => a.connectionId = connectionId && a.token = token && decide (now < a.expiresAt))
    && decide ((d.generation : Int) = generation) && decide (d.status ≠ .acked)
    && decide (d.status ≠ .deadLetter)

def streamAssignmentError (deliveryId targetAppId : String) (db : DeliveryDb) : StoreError :=
  match db.deliveries.find? (·.id = deliveryId) with
  | none => .notFound
  | some d => if d.targetAppId ≠ targetAppId || d.sink ≠ .stream then .notFound else .conflict

/-- The repeated acknowledgement of the connection that made it. -/
def DeliveryRow.ackedBy (connectionId token : String) (generation : Int) (d : DeliveryRow) : Bool :=
  d.status = .acked && decide ((d.generation : Int) = generation)
    && d.assignment.any (fun a => a.connectionId = connectionId && a.token = token)

def acknowledgeStreamDelivery (deliveryId targetAppId connectionId token : String) (generation now : Int)
    (db : DeliveryDb) : Except StoreError DeliveryDb :=
  let hit := assignedTo deliveryId targetAppId connectionId token generation now
  if db.deliveries.any hit then
    .ok { db with
      deliveries := updateWhere hit
        (fun d => { d with status := .acked, updatedAt := max d.updatedAt now }) db.deliveries }
  else
    match db.deliveries.find? (·.id = deliveryId) with
    | none => .error .notFound
    | some d =>
      if d.targetAppId ≠ targetAppId || d.sink ≠ .stream then .error .notFound
      else if d.ackedBy connectionId token generation then .ok db
      else .error .conflict

def releaseStreamDelivery (deliveryId targetAppId connectionId token : String) (generation now : Int)
    (db : DeliveryDb) : Except StoreError DeliveryDb :=
  let hit := assignedTo deliveryId targetAppId connectionId token generation now
  if db.deliveries.any hit then
    .ok { db with
      deliveries := updateWhere hit (fun d => { d with
          status := .retrying
          assignment := none
          updatedAt := max d.updatedAt now }) db.deliveries }
  else .error (streamAssignmentError deliveryId targetAppId db)

/-- `assignment_expires_at=LEAST($7,assignment_max_expires_at)`. An end before the start of the
assignment (a clock set back) violates `deliveries_assignment_complete`. -/
def Assignment.progress (until_ : Int) (a : Assignment) : Option Assignment :=
  if h : a.startedAt ≤ min until_ a.maxExpiresAt then
    some { a with
      expiresAt := min until_ a.maxExpiresAt
      started_le := h
      le_max := by omega }
  else none

def progressStreamDelivery (deliveryId targetAppId connectionId token : String) (generation now : Int)
    (lease : Int) (db : DeliveryDb) : Except StoreError DeliveryDb :=
  if lease ≤ 0 then .error .conflict
  else
    let hit (d : DeliveryRow) : Bool :=
      assignedTo deliveryId targetAppId connectionId token generation now d
        && d.assignment.any (fun a => decide (now < a.maxExpiresAt))
    if db.deliveries.any hit then
      if db.deliveries.any fun d => hit d && (d.assignment.bind (Assignment.progress (now + lease))).isNone
      then .error .database
      else
        .ok { db with
          deliveries := updateWhere hit (fun d => { d with
              assignment := d.assignment.bind (Assignment.progress (now + lease))
              updatedAt := max d.updatedAt now }) db.deliveries }
    else .error (streamAssignmentError deliveryId targetAppId db)

end RelayHub.Delivery
