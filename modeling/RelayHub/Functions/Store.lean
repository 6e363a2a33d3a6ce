import RelayHub.Lib.Program
import RelayHub.Lib.Table

/-! # RelayHub functions — stored invocations

A caller's invocation of a function is a row of `function_invocations`. It waits as `pending`, a gateway
reserves it for one of its connections and acknowledges it, the handler's reply completes it, and a reader
that finds it past its time ends it.

The calls of the store are not transactions: each is a program of single statements. `storeMachine` runs
the statements, `Call.program` are the calls, and `calls` interleaves any number of them. A statement may
fail before or after it took effect; one whose caller gave up waiting may also take effect later. -/

namespace RelayHub.Functions

open Table

/-! ## The tables -/

/-- `domain.InvocationState`. -/
inductive InvocationState where
  | pending
  | reserved
  | claimed
  | success
  | handlerError
  | unavailable
  | timeout
  deriving DecidableEq

def InvocationState.terminal : InvocationState → Bool
  | .success | .handlerError | .unavailable | .timeout => true
  | .pending | .reserved | .claimed => false

/-- The states of a completed invocation. -/
def InvocationState.completed : InvocationState → Bool
  | .success | .handlerError => true
  | _ => false

/-- `domain.RPCResult`, with JSON as text. -/
structure RPCResult where
  invocationId : String
  ok : Bool
  result : String
  error : String
  deriving DecidableEq

/-- The fields of `domain.Invocation` that `CreateInvocation` stores. -/
structure Invocation where
  id : String
  functionId : String
  ownerAppId : String
  callerAppId : String
  name : String
  input : String
  createdAt : Int
  claimBy : Int
  deadline : Int
  deriving DecidableEq

/-- A row of `function_invocations`, with the `CHECK` constraints of the table. -/
structure InvocationRow where
  id : String
  functionId : String
  ownerAppId : String
  callerAppId : String
  idempotencyHash : String
  functionName : String
  input : String
  state : InvocationState
  connectionId : Option String
  reply : Option RPCResult
  createdAt : Int
  claimBy : Int
  deadline : Int
  expiresAt : Int
  updatedAt : Int
  ordered : claimBy ≤ deadline ∧ deadline ≤ expiresAt
  deriving DecidableEq

structure FunctionRow where
  id : String
  appId : String
  enabled : Bool

structure ApplicationRow where
  id : String
  enabled : Bool

structure FunctionDb where
  invocations : List InvocationRow := []
  functions : List FunctionRow := []
  applications : List ApplicationRow := []

/-- What the store takes from its surroundings: the digest, and `domain.ValidRPCResult`. -/
structure FunctionEnv where
  sha256 : String → String
  validRPCResult : RPCResult → Bool

/-- The errors of the store. -/
inductive FunctionError where
  | notFound
  | invalidResult
  | database
  deriving DecidableEq

variable (E : FunctionEnv)

def invocationKeyHash (caller key : String) : String := E.sha256 (caller ++ "\x00" ++ key)

/-- `domain.InvocationRetention`, in microseconds. -/
def invocationRetention : Int := 24 * 3600 * 1000000

/-! ## Statements -/

inductive Statement where
  | deleteExpired (caller hash : String)
  | insert (invocation : Invocation) (hash : String)
  | selectId (caller hash : String)
  | selectLiveId (caller hash : String)
  | expire (id : String)
  | select (id : String)
  | claim (owner connection id : String)
  | acknowledge (owner connection id : String)
  | release (owner connection id : String)
  | complete (owner connection : String) (result : RPCResult)
  deriving DecidableEq

/-- What the driver returns for a statement: an error, the rows affected, or the row found. -/
inductive Reply where
  | failed
  | affected (rows : Nat)
  | id (id : Option String)
  | row (row : Option InvocationRow)
  deriving DecidableEq

def enabledApplication (db : FunctionDb) (id : String) : Bool :=
  db.applications.any fun a => a.id = id && a.enabled

def InvocationRow.hasKey (caller hash : String) (r : InvocationRow) : Bool :=
  r.callerAppId = caller && r.idempotencyHash = hash

/-- The `SELECT` of the `INSERT`: the function and both applications are enabled. -/
def callable (v : Invocation) (db : FunctionDb) : Bool :=
  db.functions.any (fun f => f.id = v.functionId && f.appId = v.ownerAppId && f.enabled)
    && enabledApplication db v.ownerAppId && enabledApplication db v.callerAppId

/-- The row that the `INSERT` stores, if it passes the `CHECK`s. -/
def Invocation.row (v : Invocation) (hash : String) : Option InvocationRow :=
  if h : v.claimBy ≤ v.deadline ∧ v.deadline ≤ v.createdAt + invocationRetention then
    some
      { id := v.id, functionId := v.functionId, ownerAppId := v.ownerAppId, callerAppId := v.callerAppId
        idempotencyHash := hash, functionName := v.name, input := v.input, state := .pending
        connectionId := none, reply := none, createdAt := v.createdAt, claimBy := v.claimBy
        deadline := v.deadline, expiresAt := v.createdAt + invocationRetention, updatedAt := v.createdAt
        ordered := h }
  else none

/-- `INSERT … ON CONFLICT (caller_app_id,idempotency_hash) DO NOTHING RETURNING id`. The `CHECK`s come first,
then the conflict, then the primary key. -/
def insertInvocation (v : Invocation) (hash : String) (db : FunctionDb) : Reply × FunctionDb :=
  if !callable v db then (.id none, db)
  else
    match v.row hash with
    | none => (.failed, db)
    | some row =>
      if db.invocations.any (·.hasKey v.callerAppId hash) then (.id none, db)
      else if db.invocations.any (·.id = v.id) then (.failed, db)
      else (.id (some v.id), { db with invocations := db.invocations ++ [row] })

/-- An `UPDATE` of invocations. -/
def updateInvocations (hit : InvocationRow → Bool) (f : InvocationRow → InvocationRow) (db : FunctionDb) :
    Reply × FunctionDb :=
  (.affected (db.invocations.countP hit), { db with invocations := updateWhere hit f db.invocations })

/-- The `WHERE` of the `UPDATE` in `GetInvocation`. -/
def InvocationRow.overdue (id : String) (clock : Int) (r : InvocationRow) : Bool :=
  r.id = id && decide (clock < r.expiresAt) && (r.state = .claimed && decide (r.deadline ≤ clock)
      || (r.state = .pending || r.state = .reserved) && decide (r.claimBy ≤ clock))

def InvocationRow.ended (clock : Int) (r : InvocationRow) : InvocationRow :=
  { r with
    state := if r.state = .claimed then .timeout else .unavailable
    connectionId := none
    updatedAt := clock }

/-- The `WHERE` of `ClaimInvocation`. -/
def InvocationRow.claimable (db : FunctionDb) (owner connection id : String) (clock : Int) (r : InvocationRow) : Bool :=
  r.id = id && r.ownerAppId = owner && connection ≠ "" && r.state = .pending && decide (clock < r.claimBy)
    && decide (clock < r.deadline) && enabledApplication db r.ownerAppId

/-- `id=$1 AND owner_app_id=$3 AND connection_id=$2`. -/
def InvocationRow.heldBy (owner connection id : String) (r : InvocationRow) : Bool :=
  r.id = id && r.ownerAppId = owner && r.connectionId = some connection

/-- The `WHERE` of `AcknowledgeInvocation`. -/
def InvocationRow.acknowledgeable (owner connection id : String) (clock : Int) (r : InvocationRow) : Bool :=
  r.heldBy owner connection id && r.state = .reserved && decide (clock < r.claimBy) && decide (clock < r.deadline)

/-- The `WHERE` of `ReleaseInvocation`. -/
def InvocationRow.releasable (owner connection id : String) (clock : Int) (r : InvocationRow) : Bool :=
  r.heldBy owner connection id
    && (r.state = .reserved && decide (clock < r.claimBy) || r.state = .claimed && decide (clock < r.deadline))

/-- The `WHERE` of `CompleteInvocation`. -/
def InvocationRow.completable (owner connection id : String) (clock : Int) (r : InvocationRow) : Bool :=
  r.heldBy owner connection id && r.state = .claimed && decide (clock < r.deadline)

/-- The state a result asks for. -/
def RPCResult.state (result : RPCResult) : InvocationState := if result.ok then .success else .handlerError

/-- A statement at `clock_timestamp() = clock`. -/
def Statement.run (clock : Int) (db : FunctionDb) : Statement → Reply × FunctionDb
  | .deleteExpired caller hash =>
    let gone (r : InvocationRow) : Bool := r.hasKey caller hash && decide (r.expiresAt ≤ clock)
    (.affected (db.invocations.countP gone), { db with invocations := db.invocations.filter fun r => !gone r })
  | .insert invocation hash => insertInvocation invocation hash db
  | .selectId caller hash => (.id ((db.invocations.find? (·.hasKey caller hash)).map (·.id)), db)
  | .selectLiveId caller hash =>
    (.id ((db.invocations.find? fun r => r.hasKey caller hash && decide (clock < r.expiresAt)).map (·.id)), db)
  | .expire id => updateInvocations (·.overdue id clock) (·.ended clock) db
  | .select id => (.row (db.invocations.find? fun r => r.id = id && decide (clock < r.expiresAt)), db)
  | .claim owner connection id =>
    updateInvocations (·.claimable db owner connection id clock)
      (fun r => { r with state := .reserved, connectionId := some connection, updatedAt := clock }) db
  | .acknowledge owner connection id =>
    updateInvocations (·.acknowledgeable owner connection id clock)
      (fun r => { r with state := .claimed, updatedAt := clock }) db
  | .release owner connection id =>
    updateInvocations (·.releasable owner connection id clock)
      (fun r => { r with state := .pending, connectionId := none, updatedAt := clock }) db
  | .complete owner connection result =>
    updateInvocations (·.completable owner connection result.invocationId clock)
      (fun r => { r with state := result.state, reply := some result, updatedAt := clock }) db

/-! ## The machine -/

/-- What becomes of a statement. -/
inductive Fate where
  /-- It takes effect and its reply arrives. -/
  | answered
  /-- It fails and never takes effect. -/
  | refused
  /-- It takes effect and its reply is lost. -/
  | lost
  /-- Its caller gives up; it may take effect later. -/
  | adrift
  deriving DecidableEq

/-- The database and the statements whose callers have given up. -/
structure Store where
  db : FunctionDb := {}
  adrift : List Statement := []

inductive StoreInput where
  | query (statement : Statement) (clock : Int) (fate : Fate)
  /-- A statement that is adrift takes effect. -/
  | arrive (n : Nat) (clock : Int)
  /-- Administrators change functions and applications. -/
  | catalog (functions : List FunctionRow) (applications : List ApplicationRow)

def storeMachine : Mealy Store StoreInput Reply where
  exec st
    | .query s clock .answered => ((s.run clock st.db).1, { st with db := (s.run clock st.db).2 })
    | .query _ _ .refused => (.failed, st)
    | .query s clock .lost => (.failed, { st with db := (s.run clock st.db).2 })
    | .query s _ .adrift => (.failed, { st with adrift := st.adrift ++ [s] })
    | .arrive n clock =>
      match st.adrift[n]? with
      | some s => (.failed, { db := (s.run clock st.db).2, adrift := st.adrift.eraseIdx n })
      | none => (.failed, st)
    | .catalog functions applications => (.failed, { st with db := { st.db with functions, applications } })

/-! ## Calls -/

open Program

def getInvocation (id : String) : Program Statement Reply (Except FunctionError InvocationRow) := do
  match ← perform (.expire id) with
  | .affected _ =>
    match ← perform (.select id) with
    | .row (some r) => return .ok r
    | .row none => return .error .notFound
    | _ => return .error .database
  | _ => return .error .database

/-- `CreateInvocation`; the flag says whether the invocation was there. -/
def createInvocation (v : Invocation) (key : String) :
    Program Statement Reply (Except FunctionError (InvocationRow × Bool)) := do
  if v.id = "" || v.functionId = "" || v.ownerAppId = "" || v.callerAppId = "" || key = "" then
    return .error .notFound
  let hash := invocationKeyHash E v.callerAppId key
  match ← perform (.deleteExpired v.callerAppId hash) with
  | .affected _ =>
    match ← perform (.insert v hash) with
    | .id (some id) => return (← getInvocation id).map (·, false)
    | .id none =>
      match ← perform (.selectId v.callerAppId hash) with
      | .id (some id) => return (← getInvocation id).map (·, true)
      | .id none => return .error .notFound
      | _ => return .error .database
    | _ => return .error .database
  | _ => return .error .database

def findInvocation (caller key : String) : Program Statement Reply (Except FunctionError InvocationRow) := do
  match ← perform (.selectLiveId caller (invocationKeyHash E caller key)) with
  | .id (some id) => getInvocation id
  | .id none => return .error .notFound
  | _ => return .error .database

/-- What follows an `UPDATE` that should change one row. -/
def expectOne (id : String) : Reply → Program Statement Reply (Except FunctionError Unit)
  | .affected 1 => return .ok ()
  | .affected _ => do
    let _ ← getInvocation id
    return .error .invalidResult
  | _ => return .error .database

def transitionInvocation (s : Statement) (id connection owner : String) :
    Program Statement Reply (Except FunctionError Unit) := do
  if id = "" || owner = "" || connection = "" then return .error .invalidResult
  expectOne id (← perform s)

def claimInvocation (owner connection id : String) : Program Statement Reply (Except FunctionError Unit) :=
  transitionInvocation (.claim owner connection id) id connection owner

def acknowledgeInvocation (owner connection id : String) : Program Statement Reply (Except FunctionError Unit) :=
  transitionInvocation (.acknowledge owner connection id) id connection owner

def releaseInvocation (owner connection id : String) : Program Statement Reply (Except FunctionError Unit) :=
  transitionInvocation (.release owner connection id) id connection owner

def completeInvocation (owner connection : String) (result : RPCResult) :
    Program Statement Reply (Except FunctionError Unit) := do
  if owner = "" || connection = "" || !E.validRPCResult result then return .error .invalidResult
  expectOne result.invocationId (← perform (.complete owner connection result))

/-- A call of `store.FunctionInvocationStore`. -/
inductive Call where
  | create (invocation : Invocation) (key : String)
  | get (id : String)
  | find (caller key : String)
  | claim (owner connection id : String)
  | acknowledge (owner connection id : String)
  | release (owner connection id : String)
  | complete (owner connection : String) (result : RPCResult)

inductive Outcome where
  | invocation (result : Except FunctionError (InvocationRow × Bool))
  | done (result : Except FunctionError Unit)

def Call.program : Call → Program Statement Reply Outcome
  | .create v key => do return .invocation (← createInvocation E v key)
  | .get id => do return .invocation ((← getInvocation id).map (·, true))
  | .find caller key => do return .invocation ((← findInvocation E caller key).map (·, true))
  | .claim owner connection id => do return .done (← claimInvocation owner connection id)
  | .acknowledge owner connection id => do return .done (← acknowledgeInvocation owner connection id)
  | .release owner connection id => do return .done (← releaseInvocation owner connection id)
  | .complete owner connection result => do return .done (← completeInvocation E owner connection result)

/-- What the scheduler chooses for a statement. -/
structure Choice where
  clock : Int
  fate : Fate

def Statement.input (s : Statement) (c : Choice) : StoreInput := .query s c.clock c.fate

/-- The inputs of the store in a run of calls. -/
def storeInputs (turns : List (Turn Call StoreInput Choice)) : List StoreInput :=
  Pool.inputs storeMachine (Call.program E) Statement.input id ⟨{}, []⟩ turns

end RelayHub.Functions
