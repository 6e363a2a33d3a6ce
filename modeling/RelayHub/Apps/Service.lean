import RelayHub.Apps.Store
import RelayHub.Lib.Text

/-! # RelayHub applications — the service

`Update` reads the application, applies the fields that it names, validates the whole and writes it with a
comparison; if the row has changed in between, it starts again, sixteen times at most. -/

namespace RelayHub.Apps

open Program Transactions

/-! ## Validation -/

/-- A parsed URL. -/
structure Url where
  scheme : String
  hostname : String
  user : Bool
  fragment : String

/-- A parsed IP address. -/
structure Address where
  isLoopback : Bool
  isPrivate : Bool

/-- What the service is given: the parsers of URLs and addresses, the hash of API keys, and its options. -/
structure Env where
  parseUrl : String → Option Url
  parseIP : String → Option Address
  hashAPIKey : String → String
  allowInsecureCallbacks : Bool

def trimSuffix (s suffix : String) : String :=
  match Text.cutSuffix s suffix with
  | some rest => rest
  | none => s

def hasSuffix (s suffix : String) : Bool := (Text.cutSuffix s suffix).isSome

variable (E : Env)

def internalHost (host : String) : Bool :=
  let host := Text.toLower (trimSuffix host ".")
  if host = "localhost" || hasSuffix host ".localhost" || hasSuffix host ".local" ||
    hasSuffix host ".internal" then true
  else
    match E.parseIP host with
    | some ip => ip.isLoopback || ip.isPrivate
    | none => false

/-- `validCallbackURL`, of an URL that is there. -/
def validCallbackURL (callbackUrl : String) : Bool :=
  match E.parseUrl callbackUrl with
  | none => false
  | some parsed =>
    if parsed.hostname = "" || parsed.user || parsed.fragment ≠ "" ||
      (parsed.scheme ≠ "http" && parsed.scheme ≠ "https")
    then false
    else parsed.scheme = "https" || (E.allowInsecureCallbacks && internalHost E parsed.hostname)

def validate (name : String) (callbackUrl : Option String) (mode : DeliveryMode) : Bool :=
  if name = "" || name.utf8ByteSize > 128 || !mode.valid then false
  else if (mode = .callback || mode = .all) && callbackUrl.isNone then false
  else
    match callbackUrl with
    | none => true
    | some url => validCallbackURL E url

def App.validates (app : App) : Bool := validate E app.name app.callbackUrl app.deliveryMode

/-! ## Calls -/

structure CreateApp where
  name : String
  callbackUrl : Option String
  deliveryMode : DeliveryMode

/-- `UpdateApp`: the fields that an update names. -/
structure UpdateApp where
  name : Option String
  /-- `OptionalString`: set, and to what. -/
  callbackUrl : Option (Option String)
  deliveryMode : Option DeliveryMode

def UpdateApp.namesNothing (input : UpdateApp) : Bool :=
  input.name.isNone && input.callbackUrl.isNone && input.deliveryMode.isNone

/-- The application with the named fields. -/
def UpdateApp.patch (input : UpdateApp) (app : App) : App :=
  { app with
    name := match input.name with
      | some name => Text.trimSpace name
      | none => app.name
    callbackUrl := input.callbackUrl.getD app.callbackUrl
    deliveryMode := input.deliveryMode.getD app.deliveryMode }

inductive AppError where
  | invalidInput
  | unauthorized
  | notFound
  | conflict
  | unavailable
  deriving DecidableEq

def mapStoreError : StoreError → AppError
  | .notFound => .notFound
  | .conflict => .conflict

abbrev AppM := Program (Request Op Inquiry Rows TxResult) (Answer Rows TxResult Int)

def now : AppM Int := do
  match ← perform .ask with
  | .told t => return t
  | _ => return 0

/-- A transaction, and the application it returns. -/
def transaction (body : TxM (Decision TxResult)) : AppM (Except AppError (Option App)) := do
  match ← perform (.transaction body) with
  | .result (some (.ok app)) => return .ok app
  | .result (some (.error e)) => return .error (mapStoreError e)
  | _ => return .error .unavailable

def get (appId : String) : AppM (Except AppError App) := do
  match ← perform (.query (.getApplication appId)) with
  | .reply (some (.app (some app))) => return .ok app
  | .reply (some _) => return .error .notFound
  | _ => return .error .unavailable

/-- `Create`; the identifier, the key and the secret are random. -/
def create (input : CreateApp) (appId apiKey hmacSecret : String) : AppM (Except AppError App) := do
  let name := Text.trimSpace input.name
  if !validate E name input.callbackUrl input.deliveryMode then
    return .error .invalidInput
  let t ← now
  let app : App := ⟨appId, name, input.callbackUrl, input.deliveryMode, true, t, t⟩
  match ← transaction (createApplication app (E.hashAPIKey apiKey) hmacSecret) with
  | .error e => return .error e
  | .ok _ => return .ok app

def compareAndSwapApplication (expected app : App) : AppM (Except AppError (Option App)) := do
  if expected.id ≠ app.id then
    return .error .conflict
  transaction (updateApplication expected app)

/-- The loop of `Update`. -/
def updateLoop (E : Env) (appId : String) (input : UpdateApp) : Nat → AppM (Except AppError App)
  | 0 => return .error .conflict
  | attempts + 1 => do
    match ← get appId with
    | .error e => return .error e
    | .ok expected =>
      let app := input.patch expected
      if !app.validates E then
        return .error .invalidInput
      let t ← now
      match ← compareAndSwapApplication expected { app with updatedAt := t } with
      | .error .conflict => updateLoop E appId input attempts
      | .error e => return .error e
      | .ok (some updated) => return .ok updated
      | .ok none => return .error .unavailable

def update (appId : String) (input : UpdateApp) : AppM (Except AppError App) := do
  if input.namesNothing then
    return .error .invalidInput
  updateLoop E appId input 16

def disable (appId : String) : AppM (Except AppError App) := do
  let t ← now
  match ← transaction (disableApplication appId t) with
  | .error e => return .error e
  | .ok (some app) => return .ok app
  | .ok none => return .error .unavailable

/-- `RotateSecret`; the key and the secret are random. -/
def rotateSecret (appId apiKey hmacSecret : String) : AppM (Except AppError Unit) := do
  let t ← now
  match ← transaction (rotateApplicationCredential appId (E.hashAPIKey apiKey) hmacSecret t) with
  | .error e => return .error e
  | .ok _ => return .ok ()

/-- `AuthenticateAPIKey`: the application and its secret. -/
def authenticateAPIKey (apiKey : String) : AppM (Except AppError (App × String)) := do
  if apiKey = "" then
    return .error .unauthorized
  match ← perform (.query (.findCredentialByAPIKeyHash (E.hashAPIKey apiKey))) with
  | .reply (some (.credential (some (appId, credential)))) =>
    match ← get appId with
    | .error _ => return .error .unauthorized
    | .ok app =>
      if !app.enabled then
        return .error .unauthorized
      return .ok (app, credential.hmacSecret)
  | _ => return .error .unauthorized

inductive Call where
  | create (input : CreateApp) (appId apiKey hmacSecret : String)
  | update (appId : String) (input : UpdateApp)
  | disable (appId : String)
  | rotateSecret (appId apiKey hmacSecret : String)
  | authenticateAPIKey (apiKey : String)

/-- What a call that succeeds returns. -/
inductive Outcome where
  | created (app : App)
  | updated (app : App)
  | disabled (app : App)
  | rotated
  | authenticated (app : App) (hmacSecret : String)

def Call.program : Call → AppM (Except AppError Outcome)
  | .create input appId apiKey hmacSecret => do
    return (← Apps.create E input appId apiKey hmacSecret).map .created
  | .update appId input => do return (← Apps.update E appId input).map .updated
  | .disable appId => do return (← Apps.disable appId).map .disabled
  | .rotateSecret appId apiKey hmacSecret => do
    return (← Apps.rotateSecret E appId apiKey hmacSecret).map fun _ => .rotated
  | .authenticateAPIKey apiKey => do
    return (← Apps.authenticateAPIKey E apiKey).map fun x => .authenticated x.1 x.2

abbrev AppPool := Pool (Store Lock Region.Value) Call (Statement Op Inquiry) (Reply Rows Int) (Except AppError Outcome)

abbrev AppTurn := Turn Call Empty (Choice Int)

/-- The services after a run from some tables. A statement that has to wait is tried again, up to `patience` times. -/
def appsAfter (patience : Nat) (data : Tables) (ts : List AppTurn) : AppPool :=
  (concurrentCalls tables patience (Call.program E)).run ⟨.of data, []⟩ ts

/-! ## An example -/

def sampleEnv : Env := ⟨fun _ => none, fun _ => none, fun apiKey => apiKey, false⟩

def sampleApp : App := ⟨"app_a", "orders", none, .queue, true, 0, 0⟩

/-- One application, with its first credential. -/
def sampleTables : Tables
  | .app id => if id = "app_a" then some sampleApp else none
  | .credentials id => if id = "app_a" then [⟨"key_1", "secret_1", 0, 0, 1, none⟩] else []
  | .endpoint _ => none
  | .key h => if h = "key_1" then some "app_a" else none

end RelayHub.Apps
