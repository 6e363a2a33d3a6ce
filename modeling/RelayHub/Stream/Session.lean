import RelayHub.Delivery.Sinks
import RelayHub.Events.Codec
import RelayHub.Stream.Protocol

/-! # RelayHub streams — the deliveries of a session

`Session.deliver` takes a broker message and makes it an `event.delivery` frame of one stream connection. It
takes the lock of the session twice: first to reserve a place in the window and the byte budget, and
after the assignment in the store to turn the reservation into an entry of `inflight`. The frame goes to
the channel `frames` after the second section. Other calls on the session run in between, so `deliver` takes
what they do to the session as an argument, `Surroundings`. -/

namespace RelayHub.Stream

open Json Events Delivery

/-! ## State -/

/-- The fields of `streamgateway.Options` that a delivery reads. -/
structure GatewayOptions where
  assignmentLease : Int
  maxProcessing : Int
  maxInFlightBytes : Int
  outboundQueue : Nat
  retryDelay : Int

/-- What a broker message is told. -/
inductive Settlement where
  | ack
  | nack (delay : Int)
  deriving DecidableEq

/-- `inflightDelivery`; the assignment with what is read from it. -/
structure InflightDelivery where
  token : String
  generation : Int
  bytes : Nat

/-- `Session`. The channel `frames` holds what the writer has not taken yet, and `done` is whether it is
closed. -/
structure Session where
  appId : String
  connectionId : String
  started : Bool
  maxInFlight : Int
  inflight : List (String × InflightDelivery)
  inflightBytes : Int
  reserved : Int
  reservedBytes : Int
  closing : Bool
  done : Bool
  frames : List String

def Session.closedLocked (s : Session) : Bool := s.closing || s.done

variable (o : GatewayOptions)

/-- The window and the byte budget have a place for a frame of that size. -/
def Session.admits (bytes : Nat) (s : Session) : Bool :=
  !s.closedLocked && decide (s.inflight.length + s.reserved < s.maxInFlight)
    && decide (s.inflightBytes + s.reservedBytes + bytes ≤ o.maxInFlightBytes)

def Session.reserve (bytes : Nat) (s : Session) : Session :=
  { s with reserved := s.reserved + 1, reservedBytes := s.reservedBytes + bytes }

def Session.releaseReservation (bytes : Nat) (s : Session) : Session :=
  { s with reserved := s.reserved - 1, reservedBytes := s.reservedBytes - bytes }

/-- `session.inflight[id] = …`, which replaces an entry of that id. -/
def Session.record (id : String) (d : InflightDelivery) (s : Session) : Session :=
  { s with
    inflight := s.inflight.filter (fun x => x.1 ≠ id) ++ [(id, d)]
    inflightBytes := s.inflightBytes + d.bytes }

/-- The entry of an id and the session without it. -/
def Session.remove (id : String) (s : Session) : Option (InflightDelivery × Session) :=
  (s.inflight.find? fun x => x.1 = id).map fun x =>
    (x.2, { s with
      inflight := s.inflight.filter fun x => x.1 ≠ id
      inflightBytes := s.inflightBytes - x.2.bytes })

/-- `enqueueRaw`; `none` if the session is done or the channel is full. -/
def Session.enqueueRaw (raw : String) (s : Session) : Option Session :=
  if s.done then none
  else if s.frames.length < o.outboundQueue then some { s with frames := s.frames ++ [raw] }
  else none

/-! ## Frames -/

def validEnvelope (envelope : Events.OutboxEnvelope) (appId : String) : Bool :=
  decide (envelope.deliveryId ≠ "") && decide (envelope.event.id ≠ "")
    && decide (envelope.event.type ≠ "") && decide (envelope.event.sourceAppId ≠ "")
    && !envelope.event.targetAppIds.isEmpty && Events.jsonObject envelope.event.data
    && envelope.event.targetAppIds.contains appId

/-- The fields of an `event.delivery` frame, as `json.Marshal` orders the keys of a map. -/
def deliveryFields (deliveryId : String) (attempt : Int) (event : Json) : List (String × Json) :=
  [("attempt", ofInt attempt), ("delivery_id", ofString deliveryId), ("event", event),
    ("type", ofString "event.delivery")]

/-- The frame of an envelope. -/
def deliveryWire (envelope : Events.OutboxEnvelope) (attempt : Int) : Option String :=
  marshal (envelope.event.json.map fun event => ofFields (deliveryFields envelope.deliveryId attempt event))

/-- The first part of `deliver`: the envelope of a message and its frame, if nothing is wrong with
either. An envelope without a generation is of the first one. -/
def openMessage (appId data : String) : Option (Events.OutboxEnvelope × String) :=
  match decodeEnvelope data with
  | none => none
  | some envelope =>
    if !validEnvelope envelope appId then none
    else
      let envelope := { envelope with
        generation := if envelope.generation = 0 then 1 else envelope.generation }
      match deliveryWire envelope 1 with
      | none => none
      | some wire =>
        if decide (maxMessageBytes < byteLength wire) || (validateServerFrame wire).isSome then none
        else some (envelope, wire)

/-! ## Delivering -/

/-- What `deliver` meets: the id generator, the clock at the assignment and at a release, and what other
calls do to the session and to the tables while it does not look. The session keeps its identity while a
delivery is assigned. -/
structure Surroundings where
  newId : Option String
  now : Int
  releaseNow : Int
  whileAssigning : Session → Session
  beforeEnqueue : Session → Session
  beforeRelease : DeliveryDb → DeliveryDb
  assigning_same : ∀ s, (whileAssigning s).appId = s.appId ∧ (whileAssigning s).connectionId = s.connectionId

/-- The attempt `AssignStreamDelivery` starts: `attempts++` of the row it reads. -/
def assignedAttempt (deliveryId : String) (db : DeliveryDb) : Nat :=
  ((db.deliveries.find? (·.id = deliveryId)).map (·.attempts)).getD 0 + 1

variable (env : Surroundings)

/-- `ReleaseStreamDelivery` with its error dropped. -/
def releaseAssignment (s : Session) (deliveryId token : String) (generation : Int) (db : DeliveryDb) : DeliveryDb :=
  let db := env.beforeRelease db
  match releaseStreamDelivery deliveryId s.appId s.connectionId token generation env.releaseNow db with
  | .ok db => db
  | .error _ => db

/-- The session and the tables after a call of `deliver`, and what it has told the message. A message
that was told nothing is in flight. -/
structure Outcome where
  session : Session
  db : DeliveryDb
  settlement : Option Settlement

/-- The session cannot take the delivery after all: its assignment is given back. -/
def giveBack (deliveryId token : String) (generation : Int) (db : DeliveryDb) (s : Session) : Outcome :=
  ⟨s, releaseAssignment env s deliveryId token generation db, some (.nack o.retryDelay)⟩

/-- The end of `deliver`: the frame is queued, or the assignment is given back. -/
def queueFrame (deliveryId wire : String) (db : DeliveryDb) (s : Session) : Outcome :=
  match s.enqueueRaw o wire with
  | some s => ⟨s, db, none⟩
  | none =>
    match s.remove deliveryId with
    | none => ⟨s, db, none⟩
    | some (d, s) => ⟨s, releaseAssignment env s deliveryId d.token d.generation db, some (.nack 0)⟩

def deliver (data : String) (db : DeliveryDb) (s : Session) : Outcome :=
  match openMessage s.appId data with
  | none => ⟨s, db, some (.nack o.retryDelay)⟩
  | some (envelope, wire) =>
    let bytes := byteLength wire
    if !s.admits o bytes then ⟨s, db, some (.nack o.retryDelay)⟩
    else
      let s := env.whileAssigning (s.reserve bytes)
      match env.newId with
      | none => ⟨s.releaseReservation bytes, db, some (.nack o.retryDelay)⟩
      | some token =>
        match assignStreamDelivery envelope.deliveryId s.appId s.connectionId token envelope.generation
            env.now o.assignmentLease o.maxProcessing db with
        | .error _ => ⟨s.releaseReservation bytes, db, some (.nack o.retryDelay)⟩
        | .ok (.alreadyComplete, db) => ⟨s.releaseReservation bytes, db, some .ack⟩
        | .ok (.alreadyAssigned, db) => ⟨s.releaseReservation bytes, db, some (.nack o.retryDelay)⟩
        | .ok (.assigned, assigned) =>
          let s := s.releaseReservation bytes
          if s.closedLocked then giveBack o env envelope.deliveryId token envelope.generation assigned s
          else
            match deliveryWire envelope (assignedAttempt envelope.deliveryId db) with
            | none => giveBack o env envelope.deliveryId token envelope.generation assigned s
            | some wire =>
              if maxMessageBytes < byteLength wire then
                giveBack o env envelope.deliveryId token envelope.generation assigned s
              else
                queueFrame o env envelope.deliveryId wire assigned (env.beforeEnqueue (s.record envelope.deliveryId
                    { token, generation := envelope.generation, bytes := byteLength wire }))

end RelayHub.Stream
