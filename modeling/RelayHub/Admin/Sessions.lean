import RelayHub.Auth.Signature
import RelayHub.Lib.Dict
import RelayHub.Lib.Program
import RelayHub.Realtime.Channels

/-! # RelayHub admin — sessions

An admin session is a record in Redis. `Authenticate` validates and prolongs it in one script, `Refresh` reads
it and writes it back with a new token, `Logout` deletes it, and revoking a user scans for the sessions of
that user and deletes each. Every operation on Redis is one statement, so `Refresh` is three, and calls
interleave between them. -/

namespace RelayHub.Admin

open Bytes Program
open Realtime (validKeyPart)

/-! ## Records -/

/-- `AdminSession`. Times are microseconds. -/
structure AdminSession where
  id : String
  userId : String
  email : String
  role : String
  csrfHash : List UInt8
  issuedAt : Int
  lastSeenAt : Int
  idleExpiresAt : Int
  expiresAt : Int
  deriving DecidableEq

structure AdminPrincipal where
  id : String
  email : String
  role : String
  deriving DecidableEq

def AdminSession.principal (s : AdminSession) : AdminPrincipal := ⟨s.userId, s.email, s.role⟩

/-- The zero `time.Time`. -/
def zeroTime : Int := -62135596800000000

def minute : Int := 60000000

/-- `adminSessionIdleTTL`. -/
def idleTtl : Int := 30 * minute

/-- `adminSessionAbsoluteTTL`. -/
def absoluteTtl : Int := 12 * 60 * minute

def validAdminSession (s : AdminSession) : Bool :=
  validKeyPart s.id && s.userId ≠ "" && s.email ≠ "" && (s.role = "admin" || s.role = "user") && s.csrfHash ≠ []
    && s.issuedAt ≠ zeroTime && s.issuedAt ≤ s.lastSeenAt && s.lastSeenAt < s.idleExpiresAt
    && s.idleExpiresAt ≤ s.expiresAt

/-- What the script and the decoder ask of a record before its times. -/
def AdminSession.isFor (s : AdminSession) (id : String) : Bool :=
  s.id = id && s.userId ≠ "" && s.email ≠ "" && (s.role = "admin" || s.role = "user") && s.csrfHash ≠ []

/-- `decodeAdminSession` accepts the record. -/
def AdminSession.decodes (s : AdminSession) (id : String) : Bool :=
  s.isFor id && 0 < s.issuedAt && 0 < s.lastSeenAt && 0 < s.idleExpiresAt && 0 < s.expiresAt && validAdminSession s

/-- `validateAndTouchSessionScript` accepts the record. -/
def AdminSession.passes (s : AdminSession) (id : String) : Bool :=
  s.isFor id && 0 < s.issuedAt && s.issuedAt ≤ s.lastSeenAt && s.lastSeenAt < s.idleExpiresAt
    && s.idleExpiresAt ≤ s.expiresAt

/-- What is stored under a key. -/
inductive Stored where
  | record (session : AdminSession)
  /-- Nothing that can be decoded. -/
  | garbage

/-- The sessions, under their ids. -/
abbrev Sessions := List (String × Stored)

/-! ## Statements -/

/-- A step of a call. -/
inductive Statement where
  | clock
  | validateAndTouch (id : String)
  | get (id : String)
  | set (session : AdminSession)
  | del (id : String)
  /-- One page of a scan: the keys that are on it. -/
  | scan (page : String → Bool)

inductive Reply where
  | time (now : Int)
  | touched (session : AdminSession)
  | missing
  | corrupt
  | value (stored : Option Stored)
  | done
  | keys (ids : List String)
  | failed

/-- What a call does not choose: the clock, and what becomes of the statement. -/
structure Choice where
  now : Int
  fate : Fate := .answered

/-- `validateAndTouchSessionScript`. -/
def touchScript (id : String) (now : Int) (db : Sessions) : Reply × Sessions :=
  match db.lookup id with
  | none => (.missing, db)
  | some .garbage => (.corrupt, Dict.erase id db)
  | some (.record s) =>
    if s.passes id = false then (.corrupt, Dict.erase id db)
    else if s.idleExpiresAt ≤ now ∨ s.expiresAt ≤ now then (.missing, Dict.erase id db)
    else
      let s' := { s with lastSeenAt := now, idleExpiresAt := min (now + idleTtl) s.expiresAt }
      (.touched s', Dict.set id (.record s') db)

/-- What a statement does when it reaches Redis. -/
def Statement.eval (now : Int) (db : Sessions) : Statement → Reply × Sessions
  | .clock => (.time now, db)
  | .validateAndTouch id => touchScript id now db
  | .get id => (.value (db.lookup id), db)
  | .set s => (.done, Dict.set s.id (.record s) db)
  | .del id => (.done, Dict.erase id db)
  | .scan page => (.keys ((db.map Prod.fst).filter page), db)

def Statement.run (st : Statement) (c : Choice) (db : Sessions) : Reply × Sessions :=
  match st, c.fate with
  | .clock, _ => st.eval c.now db
  | _, .answered => st.eval c.now db
  | _, .lost => (.failed, (st.eval c.now db).2)
  | _, .refused => (.failed, db)

/-- What Redis does by itself: a key expires. -/
inductive Event where
  | expire (id : String)

inductive Input where
  | statement (st : Statement) (c : Choice)
  | event (e : Event)

/-- Redis. -/
def redis : Mealy Sessions Input Reply where
  exec db
    | .statement st c => st.run c db
    | .event (.expire id) => (.done, Dict.erase id db)

/-! ## Calls -/

inductive SessionError where
  | invalidInput
  | unauthorized
  | forbidden
  | notFound
  | corruptRecord
  | invalidRecord
  | invalidKeyPart
  | unavailable
  deriving DecidableEq

abbrev SessionM := Program Statement Reply

def now : SessionM Int := do
  match ← perform .clock with
  | .time t => pure t
  | _ => pure 0

def validateAndTouch (id : String) (now : Int) : SessionM (Except SessionError AdminSession) := do
  if validKeyPart id = false then
    return .error .invalidKeyPart
  if now = zeroTime then
    return .error .invalidRecord
  match ← perform (.validateAndTouch id) with
  | .touched s => return if s.decodes id then .ok s else .error .corruptRecord
  | .missing => return .error .notFound
  | .corrupt => return .error .corruptRecord
  | _ => return .error .unavailable

/-- `Get`, which deletes what it cannot decode. -/
def get (id : String) : SessionM (Except SessionError AdminSession) := do
  if validKeyPart id = false then
    return .error .invalidKeyPart
  match ← perform (.get id) with
  | .value none => return .error .notFound
  | .value (some stored) =>
    let decoded := match stored with
      | .record s => if s.decodes id then some s else none
      | .garbage => none
    match decoded with
    | some s => return .ok s
    | none =>
      match ← perform (.del id) with
      | .done => return .error .corruptRecord
      | _ => return .error .unavailable
  | _ => return .error .unavailable

def put (session : AdminSession) : SessionM (Except SessionError Unit) := do
  if validKeyPart session.id = false then
    return .error .invalidKeyPart
  if validAdminSession session = false then
    return .error .invalidRecord
  let t ← now
  if min session.idleExpiresAt session.expiresAt ≤ t then
    return .error .invalidRecord
  match ← perform (.set session) with
  | .done => return .ok ()
  | _ => return .error .unavailable

def delete (id : String) : SessionM (Except SessionError Unit) := do
  if validKeyPart id = false then
    return .error .invalidKeyPart
  match ← perform (.del id) with
  | .done => return .ok ()
  | _ => return .error .unavailable

variable (H : Auth.Hashes)

def authenticate (sessionId : String) (csrfToken : List UInt8) (mutate : Bool) :
    SessionM (Except SessionError AdminPrincipal) := do
  if sessionId = "" then
    return .error .unauthorized
  let t ← now
  match ← validateAndTouch sessionId t with
  | .error e =>
    return .error (if e = .notFound ∨ e = .corruptRecord ∨ e = .invalidKeyPart then .unauthorized else e)
  | .ok session =>
    if mutate = false then
      return .ok session.principal
    match decodeHex session.csrfHash with
    | none => return .error .forbidden
    | some want =>
      if want.length ≠ 32 ∨ csrfToken = [] ∨ (H.sha256 csrfToken).bytes ≠ want then
        return .error .forbidden
      return .ok session.principal

/-- The session as `Refresh` writes it back. -/
def AdminSession.refreshed (csrfToken : List UInt8) (t : Int) (s : AdminSession) : AdminSession :=
  let idle := if s.idleExpiresAt < t + idleTtl then t + idleTtl else s.idleExpiresAt
  { s with
    csrfHash := encodeHex (H.sha256 csrfToken).bytes
    lastSeenAt := t
    idleExpiresAt := if s.expiresAt < idle then s.expiresAt else idle }

/-- `Refresh`; the new token is random. -/
def refresh (sessionId : String) (csrfToken : List UInt8) :
    SessionM (Except SessionError (Int × AdminPrincipal)) := do
  match ← authenticate H sessionId [] false with
  | .error e => return .error e
  | .ok principal =>
    match ← get sessionId with
    | .error e => return .error e
    | .ok session =>
      let t ← now
      match ← put (session.refreshed H csrfToken t) with
      | .error e => return .error e
      | .ok () => return .ok (session.expiresAt, principal)

def logout (sessionId : String) : SessionM (Except SessionError Unit) := do
  if sessionId = "" then
    return .error .unauthorized
  match ← delete sessionId with
  | .error e => return if e = .notFound then .ok () else .error e
  | .ok () => return .ok ()

/-- A scan, which comes to every key. -/
structure Scan where
  pages : List (String → Bool)
  covers : ∀ id, ∃ page ∈ pages, page id = true

/-- The loop of `RevokeAdminUserSessions` over the keys of a page. -/
def revokeKeys (userId : String) : List String → SessionM (Except SessionError Unit)
  | [] => return .ok ()
  | id :: ids => do
    match ← perform (.get id) with
    | .value (some (.record s)) =>
      if s.userId = userId then
        match ← perform (.del id) with
        | .done => revokeKeys userId ids
        | _ => return .error .unavailable
      else revokeKeys userId ids
    | .value _ => revokeKeys userId ids
    | _ => return .error .unavailable

/-- Its loop over the pages. -/
def revokePages (userId : String) : List (String → Bool) → SessionM (Except SessionError Unit)
  | [] => return .ok ()
  | page :: pages => do
    match ← perform (.scan page) with
    | .keys ids =>
      match ← revokeKeys userId ids with
      | .ok () => revokePages userId pages
      | .error e => return .error e
    | _ => return .error .unavailable

def revokeAdminUserSessions (userId : String) (scan : Scan) : SessionM (Except SessionError Unit) := do
  if userId = "" then
    return .error .invalidInput
  revokePages userId scan.pages

/-- What PostgreSQL knows of a user. -/
structure AdminUser where
  id : String
  email : String
  role : String
  enabled : Bool

/-- `Exchange`, with the user that the password is right for, if it is; session and token are random. -/
def exchange (user : Option AdminUser) (sessionId : String) (csrfToken : List UInt8) :
    SessionM (Except SessionError (Int × AdminPrincipal)) := do
  match user with
  | none => return .error .unauthorized
  | some user =>
    if user.enabled = false ∨ user.role ≠ "admin" ∧ user.role ≠ "user" then
      return .error .unauthorized
    let t ← now
    let session : AdminSession :=
      { id := sessionId, userId := user.id, email := user.email, role := user.role,
        csrfHash := encodeHex (H.sha256 csrfToken).bytes, issuedAt := t, lastSeenAt := t,
        idleExpiresAt := t + idleTtl, expiresAt := t + absoluteTtl }
    match ← put session with
    | .error e => return .error e
    | .ok () => return .ok (session.expiresAt, session.principal)

inductive Call where
  | exchange (user : Option AdminUser) (sessionId : String) (csrfToken : List UInt8)
  | authenticate (sessionId : String) (csrfToken : List UInt8) (mutate : Bool)
  | refresh (sessionId : String) (csrfToken : List UInt8)
  | logout (sessionId : String)
  | revoke (userId : String) (scan : Scan)

/-- What a call that succeeds has done. -/
inductive Outcome where
  | exchanged (expiresAt : Int) (principal : AdminPrincipal)
  | authenticated (principal : AdminPrincipal)
  | refreshed (expiresAt : Int) (principal : AdminPrincipal)
  | loggedOut (sessionId : String)
  | revoked (userId : String)
  deriving DecidableEq

def Call.program : Call → SessionM (Except SessionError Outcome)
  | .exchange user sessionId csrfToken => do
    return (← Admin.exchange H user sessionId csrfToken).map fun x => .exchanged x.1 x.2
  | .authenticate sessionId csrfToken mutate => do
    return (← Admin.authenticate H sessionId csrfToken mutate).map .authenticated
  | .refresh sessionId csrfToken => do
    return (← Admin.refresh H sessionId csrfToken).map fun x => .refreshed x.1 x.2
  | .logout sessionId => do return (← Admin.logout sessionId).map fun _ => .loggedOut sessionId
  | .revoke userId scan => do return (← revokeAdminUserSessions userId scan).map fun _ => .revoked userId

/-- The session that a call creates. -/
def Call.creates : Call → Option String
  | .exchange _ sessionId _ => some sessionId
  | _ => none

abbrev SessionPool := Pool Sessions Call Statement Reply (Except SessionError Outcome)

/-- The servers after a run from a store. -/
def sessionsAfter (db : Sessions) (ts : List (Turn Call Event Choice)) : SessionPool :=
  (Pool.machine redis (Call.program H) Input.statement Input.event).run ⟨db, []⟩ ts

/-- What Redis has taken in it. -/
def sessionInputs (db : Sessions) (ts : List (Turn Call Event Choice)) : List Input :=
  Pool.inputs redis (Call.program H) Input.statement Input.event ⟨db, []⟩ ts

end RelayHub.Admin
