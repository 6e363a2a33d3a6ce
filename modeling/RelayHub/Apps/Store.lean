import Mathlib.Data.List.MinMax
import RelayHub.Lib.Transactions

/-! # RelayHub applications — the store

The tables of applications, their credentials and their callback endpoints, and the transactions on them, one
operation for each SQL statement. A transaction that writes first locks the row of the application, by an UPDATE or
by SELECT … FOR UPDATE; the credentials and the endpoint of an application have no lock of their own, so they are
safe only as long as every transaction does. An INSERT of a credential waits for another that inserts the same API
key. -/

namespace RelayHub.Apps

open Program Transactions

/-! ## Tables -/

/-- `domain.DeliveryMode`. -/
inductive DeliveryMode where
  | queue
  | websocket
  | callback
  | all
  /-- Any other text. -/
  | other (text : String)
  deriving DecidableEq

def DeliveryMode.valid : DeliveryMode → Bool
  | .queue | .websocket | .callback | .all => true
  | .other _ => false

/-- `domain.App`. Times are microseconds. -/
structure App where
  id : String
  name : String
  callbackUrl : Option String
  deliveryMode : DeliveryMode
  enabled : Bool
  createdAt : Int
  updatedAt : Int
  deriving DecidableEq

/-- A row of `application_credentials`. -/
structure Credential where
  apiKeyHash : String
  hmacSecret : String
  createdAt : Int
  rotatedAt : Int
  version : Nat
  revokedAt : Option Int
  deriving DecidableEq

/-- A row of `callback_endpoints`. -/
structure Endpoint where
  url : String
  enabled : Bool
  createdAt : Int
  updatedAt : Int
  deriving DecidableEq

/-- What is stored for an application, and the unique index of the API keys. -/
inductive Region where
  | app (id : String)
  | credentials (appId : String)
  | endpoint (appId : String)
  | key (apiKeyHash : String)
  deriving DecidableEq

abbrev Region.Value : Region → Type
  | .app _ => Option App
  | .credentials _ => List Credential
  | .endpoint _ => Option Endpoint
  -- the application that the key is of
  | .key _ => Option String

/-- The tables. -/
abbrev Tables := (r : Region) → r.Value

/-- Row locks, and entries of the unique index that are not committed yet. -/
inductive Lock where
  | app (id : String)
  | key (apiKeyHash : String)
  deriving DecidableEq

def Region.guard : Region → Lock
  | .app id | .credentials id | .endpoint id => .app id
  | .key h => .key h

/-! ## Statements -/

/-- The statements of transactions. -/
inductive Op where
  | insertApplication (app : App)
  /-- INSERT INTO application_credentials: its entry in the index of API keys. -/
  | insertKey (apiKeyHash appId : String)
  /-- Its row, from values. -/
  | insertCredential (appId : String) (credential : Credential)
  /-- Its row, with the creation time of the oldest credential. -/
  | insertNextCredential (appId apiKeyHash hmacSecret : String) (updatedAt : Int) (version : Nat)
  | insertEndpoint (appId : String) (endpoint : Endpoint)
  | upsertEndpoint (appId : String) (endpoint : Endpoint)
  | deleteEndpoint (appId : String)
  | disableEndpoint (appId : String) (updatedAt : Int)
  /-- UPDATE applications … AND name=$6 AND callback_url IS NOT DISTINCT FROM $7 AND delivery_mode=$8. -/
  | compareAndSet (app expected : App)
  | disableApplication (id : String) (updatedAt : Int)
  | touchApplication (id : String) (updatedAt : Int)
  /-- SELECT id … FOR UPDATE. -/
  | lockApplication (id : String)
  | applicationExists (id : String)
  | nextVersion (appId : String)
  | revokeCredentials (appId : String) (revokedAt : Int)

/-- The statements outside of transactions. -/
inductive Inquiry where
  | getApplication (id : String)
  | findCredentialByAPIKeyHash (apiKeyHash : String)

inductive Rows where
  | done
  | uniqueViolation
  | app (row : Option App)
  | affected (count : Nat)
  | version (n : Nat)
  | exists (found : Bool)
  | credential (found : Option (String × Credential))

def Op.region : Op → Region
  | .insertApplication app => .app app.id
  | .insertKey h _ => .key h
  | .insertCredential id _ | .insertNextCredential id _ _ _ _ | .nextVersion id
  | .revokeCredentials id _ => .credentials id
  | .insertEndpoint id _ | .upsertEndpoint id _ | .deleteEndpoint id | .disableEndpoint id _ => .endpoint id
  | .compareAndSet app _ => .app app.id
  | .disableApplication id _ | .touchApplication id _ | .lockApplication id | .applicationExists id => .app id

/-- The lock that a statement takes. -/
def Op.locks : Op → Option Lock
  | .insertApplication app | .compareAndSet app _ => some (.app app.id)
  | .disableApplication id _ | .touchApplication id _ | .lockApplication id => some (.app id)
  | .insertKey h _ => some (.key h)
  | _ => none

/-- The editable fields are as expected. -/
def App.sameConfiguration (row expected : App) : Bool :=
  row.name = expected.name && row.callbackUrl = expected.callbackUrl && row.deliveryMode = expected.deliveryMode

def Credential.revoke (t : Int) (c : Credential) : Credential :=
  if c.revokedAt = none then { c with revokedAt := some t } else c

/-- A row that is inserted, with the primary key and the index of active credentials. -/
def insertRow (c : Credential) (rows : List Credential) : Rows × Option (List Credential) :=
  if rows.any fun r => r.version = c.version || (r.revokedAt = none && c.revokedAt = none) then (.uniqueViolation, none)
  else (.done, some (rows ++ [c]))

/-- What a statement does. -/
def Op.exec : (o : Op) → o.region.Value → Rows × Option o.region.Value
  | .insertApplication app, none => (.done, some (some app))
  | .insertApplication _, some _ => (.uniqueViolation, none)
  | .insertKey _ appId, none => (.done, some (some appId))
  | .insertKey _ _, some _ => (.uniqueViolation, none)
  | .insertCredential _ c, rows => insertRow c rows
  | .insertNextCredential _ h secret t version, rows =>
    match rows.argmin Credential.version with
    | none => (.done, none)
    | some first => insertRow ⟨h, secret, first.createdAt, t, version, none⟩ rows
  | .insertEndpoint _ e, none => (.done, some (some e))
  | .insertEndpoint _ _, some _ => (.uniqueViolation, none)
  | .upsertEndpoint _ e, none => (.done, some (some e))
  | .upsertEndpoint _ e, some old =>
    (.done, some (some { old with url := e.url, enabled := e.enabled, updatedAt := max old.updatedAt e.updatedAt }))
  | .deleteEndpoint _, _ => (.done, some none)
  | .disableEndpoint _ _, none => (.done, none)
  | .disableEndpoint _ t, some e => (.done, some (some { e with enabled := false, updatedAt := max e.updatedAt t }))
  | .compareAndSet _ _, none => (.app none, none)
  | .compareAndSet app expected, some row =>
    if row.sameConfiguration expected then
      let row' := { row with
        name := app.name, callbackUrl := app.callbackUrl, deliveryMode := app.deliveryMode
        updatedAt := max row.updatedAt app.updatedAt }
      (.app (some row'), some (some row'))
    else (.app none, none)
  | .disableApplication _ _, none => (.app none, none)
  | .disableApplication _ t, some row =>
    let row' := { row with enabled := false, updatedAt := max row.updatedAt t }
    (.app (some row'), some (some row'))
  | .touchApplication _ _, none => (.done, none)
  | .touchApplication _ t, some row => (.done, some (some { row with updatedAt := max row.updatedAt t }))
  | .lockApplication _, row => (.exists row.isSome, none)
  | .applicationExists _, row => (.exists row.isSome, none)
  | .nextVersion _, rows => (.version ((rows.map Credential.version).foldl max 0 + 1), none)
  | .revokeCredentials _ t, rows =>
    (.affected (rows.countP fun c => c.revokedAt = none), some (rows.map (Credential.revoke t)))

/-- What a query finds. -/
def Inquiry.look (tables : Tables) : Inquiry → Rows
  | .getApplication id => .app (tables (.app id))
  | .findCredentialByAPIKeyHash h =>
    .credential do
      let appId ← tables (.key h)
      let c ← (tables (.credentials appId)).find? fun c => c.apiKeyHash = h && c.revokedAt = none
      return (appId, c)

/-- The tables, their locks and statements. -/
def tables : Regions Region Lock Op Inquiry Rows Region.Value where
  guard := Region.guard
  locks := Op.locks
  region := Op.region
  exec := Op.exec
  look i t := i.look t

/-! ## Transactions -/

inductive StoreError where
  | notFound
  | conflict
  deriving DecidableEq

/-- What a transaction returns: an application, if it has one to return. -/
abbrev TxResult := Except StoreError (Option App)

abbrev TxM := Program Op Rows

/-- `CreateApplication`, from the INSERT of the callback endpoint on. -/
def createEndpoint (app : App) : TxM (Decision TxResult) := do
  match app.callbackUrl with
  | none => return .commit (.ok none)
  | some url =>
    match ← perform (.insertEndpoint app.id ⟨url, app.enabled, app.createdAt, app.updatedAt⟩) with
    | .uniqueViolation => return .abort (.error .conflict)
    | _ => return .commit (.ok none)

/-- `CreateApplication`, from the INSERT of the credential on. -/
def createCredential (app : App) (apiKeyHash hmacSecret : String) : TxM (Decision TxResult) := do
  match ← perform (.insertKey apiKeyHash app.id) with
  | .uniqueViolation => return .abort (.error .conflict)
  | _ =>
  match ← perform (.insertCredential app.id ⟨apiKeyHash, hmacSecret, app.createdAt, app.createdAt, 1, none⟩) with
  | .uniqueViolation => return .abort (.error .conflict)
  | _ => createEndpoint app

def createApplication (app : App) (apiKeyHash hmacSecret : String) : TxM (Decision TxResult) := do
  match ← perform (.insertApplication app) with
  | .uniqueViolation => return .abort (.error .conflict)
  | _ => createCredential app apiKeyHash hmacSecret

/-- `syncCallback`, for the application with the identifier. -/
def syncCallback (id : String) (app : App) : Op :=
  match app.callbackUrl with
  | none => .deleteEndpoint id
  | some url => .upsertEndpoint id ⟨url, app.enabled, app.createdAt, app.updatedAt⟩

/-- `updateApplication`, which compares. -/
def updateApplication (expected app : App) : TxM (Decision TxResult) := do
  match ← perform (.compareAndSet app expected) with
  | .app (some updated) =>
    let _ ← perform (syncCallback app.id updated)
    return .commit (.ok (some updated))
  | _ =>
    match ← perform (.applicationExists app.id) with
    | .exists true => return .abort (.error .conflict)
    | _ => return .abort (.error .notFound)

def disableApplication (id : String) (updatedAt : Int) : TxM (Decision TxResult) := do
  match ← perform (.disableApplication id updatedAt) with
  | .app (some app) =>
    let _ ← perform (.disableEndpoint id updatedAt)
    return .commit (.ok (some app))
  | _ => return .abort (.error .notFound)

/-- `RotateApplicationCredential`, from the INSERT of the new credential on. -/
def rotateInto (id apiKeyHash hmacSecret : String) (updatedAt : Int) (nextVersion : Nat) : TxM (Decision TxResult) := do
  match ← perform (.insertKey apiKeyHash id) with
  | .uniqueViolation => return .abort (.error .conflict)
  | _ =>
  match ← perform (.insertNextCredential id apiKeyHash hmacSecret updatedAt nextVersion) with
  | .uniqueViolation => return .abort (.error .conflict)
  | _ =>
    let _ ← perform (.touchApplication id updatedAt)
    return .commit (.ok none)

def rotateApplicationCredential (id apiKeyHash hmacSecret : String) (updatedAt : Int) : TxM (Decision TxResult) := do
  match ← perform (.lockApplication id) with
  | .exists true =>
    match ← perform (.nextVersion id) with
    | .version nextVersion =>
      match ← perform (.revokeCredentials id updatedAt) with
      | .affected (_ + 1) => rotateInto id apiKeyHash hmacSecret updatedAt nextVersion
      | _ => return .abort (.error .notFound)
    | _ => return .abort (.error .notFound)
  | _ => return .abort (.error .notFound)

end RelayHub.Apps
