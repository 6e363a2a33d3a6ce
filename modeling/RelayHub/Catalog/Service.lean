import RelayHub.Lib.ReadWrite
import RelayHub.Lib.Table
import RelayHub.Realtime.Channels
import RelayHub.Stream.Protocol

/-! # RelayHub catalog — routing rules and functions

Routing rules and functions are rows that administrators create, update and delete. Each operation of the store is
one statement. `Update` of both services reads the row, applies the fields that the request names, checks the whole
and writes it: all editable fields, without a comparison. -/

namespace RelayHub.Catalog

open Program

/-! ## Rows -/

structure RoutingRule where
  id : String
  sourceAppId : Option String
  eventType : String
  targetAppId : String
  realtimeChannel : Option String
  enabled : Bool
  createdAt : Int
  updatedAt : Int
  deletedAt : Option Int
  deriving DecidableEq

structure Function where
  id : String
  appId : String
  name : String
  timeoutSeconds : Int
  enabled : Bool
  createdAt : Int
  updatedAt : Int
  deriving DecidableEq

structure Tables where
  rules : List RoutingRule
  functions : List Function
  deriving DecidableEq

/-- `WHERE id=$1 AND deleted_at IS NULL`. -/
def RoutingRule.isLive (id : String) (r : RoutingRule) : Bool := decide (r.id = id) && decide (r.deletedAt = none)

def Function.is (id : String) (f : Function) : Bool := decide (f.id = id)

/-- `WHERE id=$1 AND app_id=$2`. -/
def Function.isOf (owner id : String) (f : Function) : Bool := f.is id && decide (f.appId = owner)

def Tables.rule (s : Tables) (id : String) : Option RoutingRule := s.rules.find? (RoutingRule.isLive id)

def Tables.function (s : Tables) (id : String) : Option Function := s.functions.find? (Function.is id)

/-- What `UpdateRoutingRule` sets. -/
def RoutingRule.overwrite (rule row : RoutingRule) : RoutingRule :=
  { row with sourceAppId := rule.sourceAppId, eventType := rule.eventType, targetAppId := rule.targetAppId
             realtimeChannel := rule.realtimeChannel, enabled := rule.enabled
             updatedAt := max row.updatedAt rule.updatedAt }

/-- What `UpdateFunction` sets. -/
def Function.overwrite (f row : Function) : Function :=
  { row with name := f.name, timeoutSeconds := f.timeoutSeconds, enabled := f.enabled, updatedAt := f.updatedAt }

/-! ## Statements -/

inductive StoreError where
  | notFound | conflict | invalidTarget | failed
  deriving DecidableEq

inductive Statement where
  | getRoutingRule (id : String)
  | createRoutingRule (rule : RoutingRule)
  | updateRoutingRule (rule : RoutingRule)
  | deleteRoutingRule (id : String) (t : Int)
  | getFunction (id : String)
  | createFunction (f : Function)
  | updateFunction (owner : String) (f : Function)
  | deleteFunction (owner id : String)
  | getApplication (id : String)
  | now

inductive Reply where
  | rule (r : Except StoreError RoutingRule)
  | function (f : Except StoreError Function)
  | written (r : Except StoreError Unit)
  /-- Whether the application is enabled. -/
  | application (r : Except StoreError Bool)
  | time (t : Int)

/-- What becomes of a statement: it is answered, it fails, it violates a foreign key, or it is carried out and the
answer does not arrive. -/
inductive Fate where
  | answered | refused | foreignKey | lost
  deriving DecidableEq

/-- What a call cannot know: the clock, the application that it asks for, and the fate of the statement. -/
structure Choice where
  time : Int
  application : Option Bool
  fate : Fate

def found {α : Type} : Option α → Except StoreError α
  | some a => .ok a
  | none => .error .notFound

/-- `UpdateFunction`, with `UNIQUE (app_id, name)`. -/
def Tables.updateFunction (s : Tables) (owner : String) (f : Function) : Except StoreError Function × Tables :=
  match s.functions.find? (Function.isOf owner f.id) with
  | none => (.error .notFound, s)
  | some row =>
    if s.functions.any (fun g => g.id ≠ f.id && g.appId = owner && g.name = f.name) then (.error .conflict, s)
    else (.ok (f.overwrite row),
      { s with functions := Table.updateWhere (Function.isOf owner f.id) f.overwrite s.functions })

/-- A statement that is carried out. -/
def Statement.exec (c : Choice) (s : Tables) : Statement → Reply × Tables
  | .getRoutingRule id => (.rule (found (s.rule id)), s)
  | .createRoutingRule rule =>
    if s.rules.any (fun r => r.id = rule.id) then (.written (.error .conflict), s)
    else (.written (.ok ()), { s with rules := s.rules ++ [rule] })
  | .updateRoutingRule rule =>
    (.rule (found ((s.rule rule.id).map rule.overwrite)),
      { s with rules := Table.updateWhere (RoutingRule.isLive rule.id) rule.overwrite s.rules })
  | .deleteRoutingRule id t =>
    (.written ((found (s.rule id)).map fun _ => ()),
      { s with rules := Table.updateWhere (RoutingRule.isLive id)
                 (fun r => { r with deletedAt := some t, updatedAt := max r.updatedAt t }) s.rules })
  | .getFunction id => (.function (found (s.function id)), s)
  | .createFunction f =>
    -- `INSERT … SELECT … FROM applications WHERE id=$2 AND enabled=true`
    if c.application ≠ some true then (.written (.error .notFound), s)
    else if s.functions.any (fun g => g.id = f.id || g.appId = f.appId && g.name = f.name) then
      (.written (.error .conflict), s)
    else (.written (.ok ()), { s with functions := s.functions ++ [f] })
  | .updateFunction owner f =>
    let r := s.updateFunction owner f
    (.function r.1, r.2)
  | .deleteFunction owner id =>
    (.written ((found (s.functions.find? (Function.isOf owner id))).map fun _ => ()),
      { s with functions := s.functions.filter fun f => !f.isOf owner id })
  | .getApplication _ => (.application (found c.application), s)
  | .now => (.time c.time, s)

/-- The reply of a statement that is not answered. -/
def Statement.refuse (c : Choice) (e : StoreError) : Statement → Reply
  | .getRoutingRule _ | .updateRoutingRule _ => .rule (.error e)
  | .getFunction _ | .updateFunction .. => .function (.error e)
  | .createRoutingRule _ | .deleteRoutingRule .. | .createFunction _ | .deleteFunction .. => .written (.error e)
  | .getApplication _ => .application (.error e)
  | .now => .time c.time

/-- Only routing rules have foreign keys that a statement sets. -/
def Statement.foreignKeyError : Statement → StoreError
  | .createRoutingRule _ | .updateRoutingRule _ => .invalidTarget
  | _ => .failed

def store : Mealy Tables (Statement × Choice) Reply where
  exec s := fun (st, c) =>
    match c.fate with
    | .answered => st.exec c s
    | .refused => (st.refuse c .failed, s)
    | .foreignKey => (st.refuse c st.foreignKeyError, s)
    | .lost => (st.refuse c .failed, (st.exec c s).2)

/-! ## Calls -/

inductive ServiceError where
  | invalidInput | notFound | conflict
  | store (e : StoreError)
  deriving DecidableEq

def mapStoreError : StoreError → ServiceError
  | .notFound => .notFound
  | .conflict => .conflict
  | e => .store e

abbrev CatalogM := Program Statement Reply

def now : CatalogM Int := do
  match ← perform .now with
  | .time t => return t
  | _ => return 0

def getApplication (id : String) : CatalogM (Except StoreError Bool) := do
  match ← perform (.getApplication id) with
  | .application r => return r
  | _ => return .error .failed

/-- A statement on a rule. -/
def onRule (st : Statement) : CatalogM (Except ServiceError RoutingRule) := do
  match ← perform st with
  | .rule (.ok r) => return .ok r
  | .rule (.error e) => return .error (mapStoreError e)
  | _ => return .error (.store .failed)

/-- A statement on a function. -/
def onFunction (st : Statement) : CatalogM (Except ServiceError Function) := do
  match ← perform st with
  | .function (.ok f) => return .ok f
  | .function (.error e) => return .error (mapStoreError e)
  | _ => return .error (.store .failed)

/-- A statement that returns nothing. -/
def write (st : Statement) : CatalogM (Except ServiceError Unit) := do
  match ← perform st with
  | .written (.ok ()) => return .ok ()
  | .written (.error e) => return .error (mapStoreError e)
  | _ => return .error (.store .failed)

def normalizeStringPointer (value : Option String) : Option String :=
  (value.map Text.trimSpace).filter fun s => s ≠ ""

/-- An application that a rule names exists and is enabled. -/
def validateApplication (id : String) : CatalogM (Except ServiceError Unit) := do
  match ← getApplication id with
  | .error .notFound | .ok false => return .error .invalidInput
  | .error e => return .error (mapStoreError e)
  | .ok true => return .ok ()

/-- A rule may name the application that it routes from. -/
def validateSource : Option String → CatalogM (Except ServiceError Unit)
  | some source => validateApplication source
  | none => pure (.ok ())

def validateRule (rule : RoutingRule) : CatalogM (Except ServiceError Unit) := do
  if Text.trimSpace rule.id = "" ∨ Text.trimSpace rule.eventType = "" ∨ Text.trimSpace rule.targetAppId = "" then
    return .error .invalidInput
  match ← validateSource rule.sourceAppId with
  | .error e => return .error e
  | .ok () =>
  match ← validateApplication rule.targetAppId with
  | .error e => return .error e
  | .ok () =>
  if rule.realtimeChannel.any fun channel => !Realtime.validRealtimeChannel channel then
    return .error .invalidInput
  return .ok ()

structure CreateRoutingRule where
  sourceAppId : Option String
  eventType : String
  targetAppId : String
  realtimeChannel : Option String
  enabled : Option Bool

/-- An update of a rule; `none` is a field that it does not name. -/
structure UpdateRoutingRule where
  sourceAppId : Option (Option String)
  eventType : Option String
  targetAppId : Option String
  realtimeChannel : Option (Option String)
  enabled : Option Bool

/-- The rule of `newRule`. -/
def CreateRoutingRule.rule (input : CreateRoutingRule) (id : String) (now : Int) : RoutingRule :=
  ⟨id, normalizeStringPointer input.sourceAppId, Text.trimSpace input.eventType, Text.trimSpace input.targetAppId,
    normalizeStringPointer input.realtimeChannel, input.enabled.getD true, now, now, none⟩

/-- The fields that an update of a rule names. -/
def UpdateRoutingRule.patch (input : UpdateRoutingRule) (current : RoutingRule) : RoutingRule :=
  { current with
    sourceAppId := (input.sourceAppId.map normalizeStringPointer).getD current.sourceAppId
    eventType := (input.eventType.map Text.trimSpace).getD current.eventType
    targetAppId := (input.targetAppId.map Text.trimSpace).getD current.targetAppId
    realtimeChannel := (input.realtimeChannel.map normalizeStringPointer).getD current.realtimeChannel
    enabled := input.enabled.getD current.enabled }

/-- `RoutingService.Create`, with the identifier that it draws. -/
def createRule (input : CreateRoutingRule) (id : String) : CatalogM (Except ServiceError RoutingRule) := do
  let rule := input.rule id (← now)
  match ← validateRule rule with
  | .error e => return .error e
  | .ok () => return (← write (.createRoutingRule rule)).map fun _ => rule

/-- `RoutingService.Update`. -/
def updateRule (id : String) (input : UpdateRoutingRule) : CatalogM (Except ServiceError RoutingRule) := do
  if Text.trimSpace id = "" then return .error .invalidInput
  match ← onRule (.getRoutingRule id) with
  | .error e => return .error e
  | .ok current =>
  let rule := { input.patch current with updatedAt := ← now }
  match ← validateRule rule with
  | .error e => return .error e
  | .ok () => onRule (.updateRoutingRule rule)

/-- `RoutingService.Delete`. -/
def deleteRule (id : String) : CatalogM (Except ServiceError Unit) := do
  if Text.trimSpace id = "" then return .error .invalidInput
  write (.deleteRoutingRule id (← now))

structure RegisterFunction where
  name : String
  timeoutSeconds : Int
  enabled : Option Bool

/-- An update of a function; `none` is a field that it does not name. -/
structure UpdateFunction where
  name : Option String
  timeoutSeconds : Option Int
  enabled : Option Bool

/-- The fields that an update of a function names. -/
def UpdateFunction.patch (input : UpdateFunction) (current : Function) : Function :=
  { current with
    name := (input.name.map Text.trimSpace).getD current.name
    timeoutSeconds := input.timeoutSeconds.getD current.timeoutSeconds
    enabled := input.enabled.getD current.enabled }

def validFunction (name : String) (timeoutSeconds : Int) : Bool :=
  Stream.validFunctionName name && decide (1 ≤ timeoutSeconds) && decide (timeoutSeconds ≤ 30)

/-- `FunctionService.Register`, with the identifier that it draws. -/
def register (owner : String) (input : RegisterFunction) (id : String) : CatalogM (Except ServiceError Function) := do
  if owner = "" ∨ ¬ validFunction input.name input.timeoutSeconds then return .error .invalidInput
  let t ← now
  let f : Function := ⟨id, owner, input.name, input.timeoutSeconds, input.enabled.getD true, t, t⟩
  return (← write (.createFunction f)).map fun _ => f

/-- `FunctionService.Update`. -/
def updateFunction (owner id : String) (input : UpdateFunction) : CatalogM (Except ServiceError Function) := do
  if owner = "" ∨ id = "" ∨ input.name = none ∧ input.timeoutSeconds = none ∧ input.enabled = none then
    return .error .invalidInput
  match ← onFunction (.getFunction id) with
  | .error e => return .error e
  | .ok current =>
  if current.appId ≠ owner then return .error .notFound
  let f := input.patch current
  if ¬ validFunction f.name f.timeoutSeconds then return .error .invalidInput
  let t ← now
  onFunction (.updateFunction owner { f with updatedAt := t })

/-- `FunctionService.Delete`. -/
def deleteFunction (owner id : String) : CatalogM (Except ServiceError Unit) := do
  if owner = "" ∨ id = "" then return .error .invalidInput
  write (.deleteFunction owner id)

inductive Call where
  | createRule (input : CreateRoutingRule) (id : String)
  | updateRule (id : String) (input : UpdateRoutingRule)
  | deleteRule (id : String)
  | register (owner : String) (input : RegisterFunction) (id : String)
  | updateFunction (owner id : String) (input : UpdateFunction)
  | deleteFunction (owner id : String)

inductive Outcome where
  | rule (r : RoutingRule)
  | function (f : Function)
  | deleted
  deriving DecidableEq

def Call.program : Call → CatalogM (Except ServiceError Outcome)
  | .createRule input id => do return (← Catalog.createRule input id).map .rule
  | .updateRule id input => do return (← Catalog.updateRule id input).map .rule
  | .deleteRule id => do return (← Catalog.deleteRule id).map fun _ => .deleted
  | .register owner input id => do return (← Catalog.register owner input id).map .function
  | .updateFunction owner id input => do return (← Catalog.updateFunction owner id input).map .function
  | .deleteFunction owner id => do return (← Catalog.deleteFunction owner id).map fun _ => .deleted

abbrev CatalogPool := Pool Tables Call Statement Reply (Except ServiceError Outcome)

abbrev CatalogTurn := Turn Call Empty Choice

/-- The services after a run from some tables. -/
def catalogAfter (data : Tables) (ts : List CatalogTurn) : CatalogPool :=
  (ReadWrite.calls store Call.program).run ⟨data, []⟩ ts

/-- The tables after the first turns of a run. -/
def tablesAt (data : Tables) (ts : List CatalogTurn) (i : Nat) : Tables :=
  ReadWrite.stateAt store Call.program data ts i

end RelayHub.Catalog
