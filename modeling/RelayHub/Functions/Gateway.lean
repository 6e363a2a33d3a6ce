import Mathlib.Data.List.Sort
import RelayHub.Functions.Store

/-! # RelayHub functions — gateways

A gateway hands an invocation to one of its function sessions: it reserves the stored row for the session,
acknowledges it and enqueues the `rpc.invoke` frame, and when one of these fails it releases the row and
goes on to its next session. Requests come over the broker, which may deliver them to any gateway and more
than once, and the publisher repeats a request until it sees an acceptance.

The calls are programs over the store and over what the gateways share, in the order of the source;
`gatewayMachine` runs their statements. -/

namespace RelayHub.Functions

open Table Program

/-! ## What gateways share -/

/-- An `rpc.invoke` frame. -/
structure InvokeFrame where
  invocationId : String
  function : String
  input : String
  deadline : Int
  deriving DecidableEq

/-- `InvocationFrame`. -/
def InvocationRow.frame (r : InvocationRow) : InvokeFrame := ⟨r.id, r.functionName, r.input, r.deadline⟩

/-- A session of a gateway. -/
structure SessionRow where
  gateway : String
  id : String
  appId : String
  /-- It has subscribed to `functions`. -/
  functions : Bool
  /-- Its `done` channel is closed. -/
  done : Bool
  /-- The frames in its `outbound` channel. -/
  queued : Nat
  deriving DecidableEq

/-- The application and the id of a session. -/
structure SessionRef where
  appId : String
  id : String
  deriving DecidableEq

def outboundQueueSize : Nat := 64

/-- A `pendingInvocationAcceptance`, with the number of times its request was published. -/
structure Request where
  invocationId : String
  /-- It is in the `pending` map of its bridge. -/
  registered : Bool
  accepted : Bool
  published : Nat
  deriving DecidableEq

/-- A `natsInvocationAcceptance`; the request id is the place of the request in `World.requests`. -/
structure Acceptance where
  request : Nat
  invocationId : String
  accepted : Bool
  deriving DecidableEq

structure World where
  store : Store := {}
  sessions : List SessionRow := []
  /-- The frames that were enqueued, with their sessions. -/
  sent : List (String × InvokeFrame) := []
  requests : List Request := []
  /-- The acceptances that were published. -/
  acceptances : List Acceptance := []

/-! ## Statements -/

/-- The atomic steps of a gateway's calls: a statement of the store, or a section under a lock. -/
inductive GatewayStatement where
  | store (s : Statement)
  /-- `FunctionSessions`; a session that is closing may still be listed. -/
  | functionSessions (gateway appId : String)
  /-- A `select` on the `done` channel. -/
  | done (session : String)
  /-- The second `select` of `Send`. -/
  | enqueue (session : String) (frame : InvokeFrame)
  /-- The request is put into the `pending` map. -/
  | register (invocationId : String)
  /-- The locked section at the head of the loop of `PublishInvocation`. -/
  | dispatch (request : Nat) (deadline : Int)
  /-- The `select` of the loop. -/
  | await (request : Nat)
  /-- `pending.accepted`, read under the lock. -/
  | readAccepted (request : Nat)
  /-- The deferred `delete`. -/
  | unregister (request : Nat)
  /-- The acceptance of a request is published. -/
  | accept (acceptance : Acceptance)

/-- What the loop head decided. -/
inductive Dispatched where
  | accepted
  | unavailable
  | cancelled
  | published
  deriving DecidableEq

/-- What ended a wait. -/
inductive Wake where
  | cancelled
  | update
  | timer
  deriving DecidableEq

inductive GatewayReply where
  | store (r : Reply)
  | sessions (sessions : List SessionRef)
  | flag (value : Bool)
  | request (n : Nat)
  | dispatched (d : Dispatched)
  | woken (w : Wake)
  | done

/-- What the scheduler chooses for a statement. -/
structure GatewayChoice where
  clock : Int
  fate : Fate
  /-- `ctx.Err() != nil`. -/
  cancelled : Bool
  /-- `bridge.closed`. -/
  bridgeClosed : Bool
  /-- `PublishMsg` fails. -/
  brokerFails : Bool
  wake : Wake

/-- What happens outside of all calls. -/
inductive GatewayEvent where
  /-- A statement of the store that is adrift takes effect. -/
  | arrive (n : Nat) (clock : Int)
  | catalog (functions : List FunctionRow) (applications : List ApplicationRow)
  | connect (session : SessionRow)
  | subscribe (session : String)
  | close (session : String)
  /-- The writer of the session takes a frame from its queue. -/
  | write (session : String)
  /-- `handleAcceptance` receives an acceptance that was published, perhaps not for the first time. -/
  | acceptance (n : Nat)

inductive GatewayInput where
  | statement (s : GatewayStatement) (c : GatewayChoice)
  | event (e : GatewayEvent)

def World.updateSession (w : World) (id : String) (f : SessionRow → SessionRow) : World :=
  { w with sessions := updateWhere (fun s => s.id = id) f w.sessions }

/-- The locked section at the loop head: an acceptance is seen before the request goes out again. -/
def dispatchRequest (w : World) (n : Nat) (deadline : Int) (c : GatewayChoice) : Dispatched × World :=
  match w.requests[n]? with
  | none => (.unavailable, w)
  | some r =>
    if r.accepted then (.accepted, w)
    else if c.bridgeClosed || decide (deadline ≤ c.clock) then (.unavailable, w)
    else if c.cancelled then (.cancelled, w)
    else if c.brokerFails then (.unavailable, w)
    else (.published, { w with requests := w.requests.set n { r with published := r.published + 1 } })

/-- The second `select` of `Send`: a full queue closes the session. The `done` channel is not looked at. -/
def enqueueFrame (w : World) (session : String) (frame : InvokeFrame) : Bool × World :=
  match w.sessions.find? (·.id = session) with
  | none => (false, w)
  | some s =>
    if s.queued < outboundQueueSize then
      (true, { w.updateSession session (fun s => { s with queued := s.queued + 1 }) with
        sent := w.sent ++ [(session, frame)] })
    else (false, w.updateSession session fun s => { s with done := true })

def handleAcceptance (w : World) (a : Acceptance) : World :=
  match w.requests[a.request]? with
  | some r =>
    if r.registered && r.invocationId = a.invocationId then
      { w with requests := w.requests.set a.request { r with accepted := r.accepted || a.accepted } }
    else w
  | none => w

def GatewayStatement.run (w : World) (c : GatewayChoice) : GatewayStatement → GatewayReply × World
  | .store s =>
    let r := storeMachine.exec w.store (s.input ⟨c.clock, c.fate⟩)
    (.store r.1, { w with store := r.2 })
  | .functionSessions gateway appId =>
    let found := w.sessions.filter fun s => s.gateway = gateway && s.appId = appId && s.functions
    (.sessions ((found.map fun s => (⟨s.appId, s.id⟩ : SessionRef)).insertionSort fun a b => a.id ≤ b.id), w)
  | .done session => (.flag (w.sessions.all fun s => s.id ≠ session || s.done), w)
  | .enqueue session frame => ((enqueueFrame w session frame).map .flag id)
  | .register invocationId =>
    if c.bridgeClosed then (.done, w)
    else (.request w.requests.length, { w with requests := w.requests ++ [⟨invocationId, true, false, 0⟩] })
  | .dispatch n deadline => ((dispatchRequest w n deadline c).map .dispatched id)
  | .await _ => (.woken c.wake, w)
  | .readAccepted n => (.flag ((w.requests[n]?.map (·.accepted)).getD false), w)
  | .unregister n =>
    match w.requests[n]? with
    | some r => (.done, { w with requests := w.requests.set n { r with registered := false } })
    | none => (.done, w)
  | .accept a => (.done, { w with acceptances := w.acceptances ++ [a] })

def GatewayEvent.run (w : World) : GatewayEvent → World
  | .arrive n clock => { w with store := storeMachine.next w.store (.arrive n clock) }
  | .catalog functions applications =>
    { w with store := storeMachine.next w.store (.catalog functions applications) }
  | .connect s => if w.sessions.any (·.id = s.id) then w else { w with sessions := w.sessions ++ [s] }
  | .subscribe id => w.updateSession id fun s => { s with functions := true }
  | .close id => w.updateSession id fun s => { s with done := true }
  | .write id => w.updateSession id fun s => { s with queued := s.queued - 1 }
  | .acceptance n =>
    match w.acceptances[n]? with
    | some a => handleAcceptance w a
    | none => w

def gatewayMachine : Mealy World GatewayInput GatewayReply where
  exec w
    | .statement s c => s.run w c
    | .event e => (.done, e.run w)

/-! ## Calls -/

/-- The reply of a statement of the store. -/
def GatewayReply.toStore : GatewayReply → Reply
  | .store r => r
  | _ => .failed

/-- A call of the store, made by a gateway. -/
def onStore {α : Type} (p : Program Statement Reply α) : Program GatewayStatement GatewayReply α :=
  p.translate .store GatewayReply.toStore

def isDone (session : String) : Program GatewayStatement GatewayReply Bool := do
  match ← perform (.done session) with
  | .flag b => return b
  | _ => return true

def send (session : String) (frame : InvokeFrame) : Program GatewayStatement GatewayReply Bool := do
  if ← isDone session then return false
  match ← perform (.enqueue session frame) with
  | .flag b => return b
  | _ => return false

/-- `release`, whose error is ignored. -/
def releaseSession (s : SessionRef) (frame : InvokeFrame) : Program GatewayStatement GatewayReply Unit := do
  let _ ← onStore (releaseInvocation s.appId s.id frame.invocationId)
  return ()

/-- The loop of `InvokeFunction`; the result says whether a session took the frame. -/
def invokeSessions (frame : InvokeFrame) : List SessionRef → Program GatewayStatement GatewayReply Bool
  | [] => return false
  | s :: rest => do
    if ← isDone s.id then invokeSessions frame rest
    else
      match ← onStore (claimInvocation s.appId s.id frame.invocationId) with
      | .error _ => invokeSessions frame rest
      | .ok () =>
        if ← isDone s.id then
          releaseSession s frame
          invokeSessions frame rest
        else
          match ← onStore (acknowledgeInvocation s.appId s.id frame.invocationId) with
          | .error _ =>
            releaseSession s frame
            invokeSessions frame rest
          | .ok () =>
            if ← send s.id frame then return true
            else
              releaseSession s frame
              invokeSessions frame rest

def invokeFunction (gateway appId : String) (frame : InvokeFrame) : Program GatewayStatement GatewayReply Bool := do
  match ← perform (.functionSessions gateway appId) with
  | .sessions sessions => invokeSessions frame sessions
  | _ => return false

/-- A `natsInvocationRequest`. -/
structure InvocationRequest where
  request : Nat
  ownerAppId : String
  functionId : String
  frame : InvokeFrame

/-- `handleInvocation`, on a message that parses and whose subject is right. -/
def handleInvocation (gateway : String) (m : InvocationRequest) : Program GatewayStatement GatewayReply Unit := do
  match ← onStore (getInvocation m.frame.invocationId) with
  | .error _ => return ()
  | .ok canonical =>
    if canonical.ownerAppId ≠ m.ownerAppId || canonical.functionId ≠ m.functionId then return ()
    if canonical.frame ≠ m.frame then return ()
    let accepted ← invokeFunction gateway canonical.ownerAppId canonical.frame
    let _ ← perform (.accept ⟨m.request, m.frame.invocationId, accepted⟩)
    return ()

/-- The loop of `PublishInvocation`, for a number of rounds; the result is the error it returns, if any, and
`none` while it has not returned. -/
def publishLoop (n : Nat) (deadline : Int) : Nat → Program GatewayStatement GatewayReply (Option Dispatched)
  | 0 => return none
  | rounds + 1 => do
    match ← perform (.dispatch n deadline) with
    | .dispatched .published =>
      match ← perform (.await n) with
      | .woken .cancelled => return some .cancelled
      | .woken .update =>
        match ← perform (.readAccepted n) with
        | .flag true => return some .accepted
        -- the backoff, which only a cancelled context cuts short
        | _ =>
          match ← perform (.await n) with
          | .woken .cancelled => return some .cancelled
          | _ => publishLoop n deadline rounds
      | _ => publishLoop n deadline rounds
    | .dispatched d => return some d
    | _ => return some .unavailable

/-- `NATSBridge.PublishInvocation`; `deadline` is the earlier one of `ClaimBy` and the context's. -/
def publishInvocation (invocationId : String) (deadline : Int) (rounds : Nat) :
    Program GatewayStatement GatewayReply (Option Dispatched) := do
  match ← perform (.register invocationId) with
  | .request n =>
    let result ← publishLoop n deadline rounds
    if result.isSome then
      let _ ← perform (.unregister n)
    return result
  | _ => return some .unavailable

/-- The calls that gateways and the callers of functions make. -/
inductive GatewayCall where
  | create (invocation : Invocation) (key : String)
  | get (id : String)
  | find (caller key : String)
  | complete (owner connection : String) (result : RPCResult)
  | invoke (gateway appId : String) (frame : InvokeFrame)
  | handle (gateway : String) (message : InvocationRequest)
  | publish (invocationId : String) (deadline : Int) (rounds : Nat)

def GatewayCall.program (E : FunctionEnv) : GatewayCall → Program GatewayStatement GatewayReply Unit
  | .create v key => do
    let _ ← onStore (createInvocation E v key)
    return ()
  | .get id => do
    let _ ← onStore (getInvocation id)
    return ()
  | .find caller key => do
    let _ ← onStore (findInvocation E caller key)
    return ()
  | .complete owner connection result => do
    let _ ← onStore (completeInvocation E owner connection result)
    return ()
  | .invoke gateway appId frame => do
    let _ ← invokeFunction gateway appId frame
    return ()
  | .handle gateway message => handleInvocation gateway message
  | .publish invocationId deadline rounds => do
    let _ ← publishInvocation invocationId deadline rounds
    return ()

/-- The system: any number of calls and events, in any order. -/
def gateways (E : FunctionEnv) : Mealy (Pool World GatewayCall GatewayStatement GatewayReply Unit)
      (Turn GatewayCall GatewayEvent GatewayChoice) (Option GatewayReply) :=
  Pool.machine gatewayMachine (GatewayCall.program E) .statement .event

end RelayHub.Functions
