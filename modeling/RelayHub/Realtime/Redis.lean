import Mathlib.Data.List.Sort
import RelayHub.Lib.Dict
import RelayHub.Realtime.Protocol

/-! # RelayHub realtime — Redis

What the realtime stores keep in Redis: a stream of messages for each channel, a hash of actions for each
message, the presence of connections, and token buckets. An operation is one script or one command. It
names its keys, and what it does is a function of the values under them (`RedisOp.eval`), so it reads and
writes nothing else: `RedisOp.run_congr` and `RedisOp.run_other`. -/

namespace RelayHub.Realtime

open Function

/-! ## Values -/

/-- The value of a field of an action hash. -/
inductive HashValue where
  | text (value : String)
  | flag (value : Bool)
  | count (value : Nat)
  | action (value : RealtimeMessageAction)
  deriving DecidableEq

/-- The fields of a hash. -/
abbrev Fields := List (String × HashValue)

/-- `HSET`. -/
def setField (name : String) (value : HashValue) (h : Fields) : Fields := Dict.set name value h

inductive RedisValue where
  | missing
  /-- A stream, oldest entry first. -/
  | stream (entries : List (Nat × ChannelFrame))
  | hash (fields : Fields)
  | sortedSet (members : List (String × Int))
  /-- A string that nobody reads, with the time at which it expires. -/
  | string (expiresAt : Int)
  /-- A token bucket, as the times of the requests made to it. -/
  | bucket (requests : List Int)
  deriving DecidableEq

/-! ## Operations -/

inductive RedisOp where
  /-- `tokenBucketScript`. -/
  | tokenBucket (key : String) (limit : Nat)
  /-- `appendRealtimeHistoryScript`. -/
  | appendHistory (key : String) (maxLen : Nat) (frame : ChannelFrame)
  /-- `XREVRANGE` from an id, or from the end. -/
  | readHistory (key : String) (before : Option Nat) (count : Nat)
  /-- The transaction of `RecordMessage`. -/
  | recordMessage (key : String) (encrypted : Bool)
  /-- `putRealtimeActionScript`. -/
  | putAction (key : String) (maxActions : Nat) (action : RealtimeMessageAction)
  /-- `HGETALL`. -/
  | listActions (key : String)
  /-- `removeRealtimeActionScript`. -/
  | removeAction (key actionId clientId : String)
  /-- `upsertPresenceScript`. -/
  | upsertPresence (memberKey indexKey connectionId : String) (ttl : Int)
  /-- `deletePresenceScript`. -/
  | deletePresence (memberKey indexKey connectionId : String)
  /-- `expirePresenceScript`. -/
  | expirePresence (indexKey : String) (limit : Nat)
  deriving DecidableEq

inductive RedisReply where
  | allowed (value : Bool)
  | appended
  | entries (entries : List (Nat × ChannelFrame))
  | recorded
  | action (value : RealtimeMessageAction)
  | notFound
  | limitExceeded
  | forbidden
  | fields (fields : Fields)
  | presence (joined : Bool) (occupancy : Nat)
  | expired (connections : List String) (occupancy : Nat)
  /-- The operation failed, or its reply was lost. -/
  | failed
  deriving DecidableEq

def RedisOp.keys : RedisOp → List String
  | .tokenBucket key _ | .appendHistory key _ _ | .readHistory key _ _ | .recordMessage key _
  | .putAction key _ _ | .listActions key | .removeAction key _ _ | .expirePresence key _ => [key]
  | .upsertPresence memberKey indexKey _ _ | .deletePresence memberKey indexKey _ => [memberKey, indexKey]

/-- The hash under a key; a missing key is an empty hash. -/
def RedisValue.toFields : RedisValue → Option Fields
  | .missing => some []
  | .hash fields => some fields
  | _ => none

def RedisValue.toStream : RedisValue → Option (List (Nat × ChannelFrame))
  | .missing => some []
  | .stream entries => some entries
  | _ => none

def RedisValue.toMembers : RedisValue → Option (List (String × Int))
  | .missing => some []
  | .sortedSet members => some members
  | _ => none

def RedisValue.toRequests : RedisValue → Option (List Int)
  | .missing => some []
  | .bucket requests => some requests
  | _ => none

/-! ## Scripts -/

/-- The field that remembers an idempotency key of a client. -/
def idemField (clientId idempotencyKey : String) : String := "idem:" ++ clientId ++ ":" ++ idempotencyKey

def actionField (id : String) : String := "action:" ++ id

def ownerField (id : String) : String := "owner:" ++ id

/-- `HGET` of an action. -/
def actionOf (h : Fields) (id : String) : Option RealtimeMessageAction :=
  match h.lookup (actionField id) with
  | some (.action a) => some a
  | _ => none

/-- The action that an idempotency field points to. -/
def existingAction (h : Fields) (clientId idempotencyKey : String) : Option RealtimeMessageAction :=
  match h.lookup (idemField clientId idempotencyKey) with
  | some (.text id) => actionOf h id
  | _ => none

def countOf (h : Fields) : Nat :=
  match h.lookup "_count" with
  | some (.count n) => n
  | _ => 0

/-- `putRealtimeActionScript`. -/
def putScript (maxActions : Nat) (a : RealtimeMessageAction) (h : Fields) : RedisReply × Fields :=
  if (h.lookup "_exists").isNone then (.notFound, h)
  else
    match existingAction h a.clientId a.idempotencyKey with
    | some stored => (.action stored, h)
    | none =>
      if maxActions ≤ countOf h then (.limitExceeded, h)
      else
        (.action a, setField (actionField a.id) (.action a) <| setField (ownerField a.id) (.text a.clientId) <|
            setField (idemField a.clientId a.idempotencyKey) (.text a.id) <|
              setField "_count" (.count (countOf h + 1)) h)

/-- `removeRealtimeActionScript` for data that cjson keeps: `removeScript_eq_remove`. -/
def removeScript (actionId clientId : String) (clock : Int) (h : Fields) : RedisReply × Fields :=
  match actionOf h actionId with
  | none => (.notFound, h)
  | some a =>
    if h.lookup (ownerField actionId) ≠ some (.text clientId) then (.forbidden, h)
    else if a.removedAt.isSome then (.action a, h)
    else
      let removed := { a with removedAt := some clock }
      (.action removed, setField (actionField actionId) (.action removed) h)

/-- The id of the next entry: Redis takes its clock, or goes on from the last id. -/
def nextStreamId (entries : List (Nat × ChannelFrame)) (ticks : Nat) : Nat :=
  match entries.getLast? with
  | some last => max ticks (last.1 + 1)
  | none => ticks

/-- The newest entries before an id, newest first. -/
def newestBefore (before : Option Nat) (count : Nat) (entries : List (Nat × ChannelFrame)) :
    List (Nat × ChannelFrame) :=
  (entries.reverse.filter fun e => before.all fun id => e.1 < id).take count

/-- `ZREMRANGEBYSCORE key -inf now`. -/
def dropScored (now : Int) (members : List (String × Int)) : List (String × Int) :=
  members.filter fun m => now < m.2

/-- An operation on the values under its keys. -/
def RedisOp.eval (admits : Nat → List Int → Int → Bool) (clock : Int) (ticks : Nat) :
    RedisOp → List RedisValue → RedisReply × List RedisValue
  | .tokenBucket _ limit, [v] =>
    match v.toRequests with
    | some requests => (.allowed (admits limit requests clock), [.bucket (requests ++ [clock])])
    | none => (.failed, [v])
  | .appendHistory _ maxLen frame, [v] =>
    match v.toStream with
    | some entries =>
      let entries := entries ++ [(nextStreamId entries ticks, frame)]
      (.appended, [.stream (entries.drop (entries.length - maxLen))])
    | none => (.failed, [v])
  | .readHistory _ before count, [v] =>
    match v.toStream with
    | some entries => (.entries (newestBefore before count entries), [v])
    | none => (.failed, [v])
  | .recordMessage _ encrypted, [v] =>
    match v.toFields with
    | some h => (.recorded, [.hash (setField "_exists" (.text "1") <| setField "_encrypted" (.flag encrypted) h)])
    | none => (.failed, [v])
  | .putAction _ maxActions action, [v] =>
    match v.toFields with
    | some h => ((putScript maxActions action h).1, [.hash (putScript maxActions action h).2])
    | none => (.failed, [v])
  | .listActions _, [v] =>
    match v.toFields with
    | some h => (.fields h, [v])
    | none => (.failed, [v])
  | .removeAction _ actionId clientId, [v] =>
    match v.toFields with
    | some h => ((removeScript actionId clientId clock h).1, [.hash (removeScript actionId clientId clock h).2])
    | none => (.failed, [v])
  | .upsertPresence _ _ connectionId ttl, [member, index] =>
    match index.toMembers with
    | some members =>
      let joined := match member with
        | .string expiresAt => decide (expiresAt ≤ clock)
        | _ => true
      let members := (dropScored (clock / 1000) members).filter (·.1 ≠ connectionId)
        ++ [(connectionId, (clock + ttl) / 1000)]
      (.presence joined members.length, [.string (clock + ttl), .sortedSet members])
    | none => (.failed, [member, index])
  | .deletePresence _ _ connectionId, [member, index] =>
    match index.toMembers with
    | some members =>
      let members := dropScored (clock / 1000) (members.filter (·.1 ≠ connectionId))
      (.presence false members.length, [.missing, .sortedSet members])
    | none => (.failed, [member, index])
  | .expirePresence _ limit, [index] =>
    match index.toMembers with
    | some members =>
      let due := (members.filter fun m => m.2 ≤ clock / 1000).insertionSort fun a b => a.2 ≤ b.2
      let expired := (due.take limit).map (·.1)
      let members := members.filter fun m => !expired.contains m.1
      (.expired expired members.length, [.sortedSet members])
    | none => (.failed, [index])
  | _, values => (.failed, values)

/-- The keys take their new values. -/
def writeKeys (db : String → RedisValue) : List String → List RedisValue → String → RedisValue
  | key :: keys, value :: values => writeKeys (Function.update db key value) keys values
  | _, _ => db

def RedisOp.run (op : RedisOp) (admits : Nat → List Int → Int → Bool) (clock : Int) (ticks : Nat)
    (db : String → RedisValue) : RedisReply × (String → RedisValue) :=
  let r := op.eval admits clock ticks (op.keys.map db)
  (r.1, writeKeys db op.keys r.2)

/-! ## An operation touches its keys only -/

theorem writeKeys_other {keys : List String} {values : List RedisValue} {db : String → RedisValue} {key : String}
    (h : key ∉ keys) : writeKeys db keys values key = db key := by
  induction keys generalizing values db with
  | nil => cases values <;> rfl
  | cons k keys ih =>
    cases values with
    | nil => rfl
    | cons =>
      have hne : key ≠ k := fun heq => h (List.mem_cons.mpr (.inl heq))
      rw [writeKeys, ih fun hmem => h (List.mem_cons_of_mem _ hmem), update_of_ne hne]

theorem writeKeys_congr (keys : List String) (values : List RedisValue) {db₁ db₂ : String → RedisValue} {key : String}
    (h : db₁ key = db₂ key) : writeKeys db₁ keys values key = writeKeys db₂ keys values key := by
  induction keys generalizing values db₁ db₂ with
  | nil => cases values <;> exact h
  | cons k keys ih =>
    cases values with
    | nil => exact h
    | cons v values =>
      refine ih values ?_
      by_cases hk : key = k
      · rw [hk, update_self, update_self]
      · rw [update_of_ne hk, update_of_ne hk, h]

section Locality

variable {op : RedisOp} (admits : Nat → List Int → Int → Bool) (clock : Int) (ticks : Nat)
  {db db₁ db₂ : String → RedisValue}

theorem RedisOp.run_other {key : String} (h : key ∉ op.keys) : (op.run admits clock ticks db).2 key = db key :=
  writeKeys_other h

/-- **An operation reads its keys only.** -/
theorem RedisOp.run_congr (h : ∀ key ∈ op.keys, db₁ key = db₂ key) :
    (op.run admits clock ticks db₁).1 = (op.run admits clock ticks db₂).1 ∧
      ∀ key, db₁ key = db₂ key → (op.run admits clock ticks db₁).2 key = (op.run admits clock ticks db₂).2 key := by
  have hvalues : op.keys.map db₁ = op.keys.map db₂ := List.map_congr_left h
  unfold RedisOp.run
  rw [hvalues]
  exact ⟨rfl, fun key hkey => writeKeys_congr _ _ hkey⟩

end Locality

end RelayHub.Realtime
