import RelayHub.Lib.Base64
import RelayHub.Realtime.Hub

/-! # RelayHub realtime — calls

What a gateway does for a frame of a client, for a message from the broker, for a presence timer and when a
session closes, as programs over the statements of the hub and in the order of the source. -/

namespace RelayHub.Realtime

open Program Events Text

abbrev HubM := Program Statement Reply

/-! ## Steps -/

def stamp : HubM (Uuid × Int) := do
  match ← perform .stamp with
  | .stamp uuid now => return (uuid, now)
  | _ => return (⟨"", by decide⟩, 0)

/-- A statement whose reply is a flag. -/
def flag (s : Statement) : HubM Bool := do
  match ← perform s with
  | .flag b => return b
  | _ => return false

/-- A statement whose reply is an error or nil. -/
def checked (s : Statement) : HubM (Option ProtocolError) := do
  match ← perform s with
  | .checked e => return e
  | _ => return some connectionClosed

def redis (op : RedisOp) : HubM RedisReply := do
  match ← perform (.redis op) with
  | .redis r => return r
  | _ => return .failed

def shut (p : Peer) : HubM Unit := do
  let _ ← perform (.shut p)
  return ()

def send (p : Peer) (frame : ServerFrame) : HubM Bool := do
  match ← perform (.isDone p) with
  | .flag false => flag (.enqueue p frame)
  | _ => return false

/-- A frame to a session whose acceptance nobody looks at. -/
def sendTo (p : Peer) (frame : ServerFrame) : HubM Unit := do
  let _ ← send p frame
  return ()

/-! ## Stores -/

/-- The errors of the realtime stores that callers tell apart. -/
inductive StoreError where
  | invalidRecord
  | unavailable
  | notFound
  | forbidden
  | limitExceeded
  | corruptRecord
  deriving DecidableEq

variable (E : Env)

/-- `RealtimeActionStore.key`. -/
def actionKey (maxActions : Nat) (app : AppId) (channel messageId : String) : Option String :=
  if 1 ≤ maxActions ∧ maxActions ≤ 100 then E.keys.realtimeMessageActions app channel messageId else none

def recordMessage (maxActions : Nat) (app : AppId) (channel messageId : String) (encrypted : Bool) :
    HubM (Except StoreError Unit) := do
  match actionKey E maxActions app channel messageId with
  | none => return .error .invalidRecord
  | some key =>
    match ← redis (.recordMessage key encrypted) with
    | .recorded => return .ok ()
    | _ => return .error .unavailable

/-- `RealtimeActionStore.Put`. -/
def putAction (maxActions : Nat) (app : AppId) (a : RealtimeMessageAction) :
    HubM (Except StoreError RealtimeMessageAction) := do
  match actionKey E maxActions app a.channel a.messageId with
  | none => return .error .invalidRecord
  | some key =>
    if a.id = "" || a.clientId = "" || a.idempotencyKey = "" then return .error .invalidRecord
    match ← redis (.putAction key maxActions a) with
    | .notFound => return .error .notFound
    | .limitExceeded => return .error .limitExceeded
    | .action stored => return .ok stored
    | _ => return .error .unavailable

/-- The action in a field of a hash. -/
def fieldAction (f : String × HashValue) : Option RealtimeMessageAction :=
  if hasPrefix f.1 "action:" then
    match f.2 with
    | .action a => some a
    | _ => none
  else none

/-- The actions among the fields of a hash, if they are all about the message. -/
def actionsOf (app : AppId) (channel messageId : String) (fields : Fields) :
    Except StoreError (List RealtimeMessageAction) :=
  let found := fields.filterMap fieldAction
  if found.all fun a => a.appId = app.text && a.channel = channel && a.messageId = messageId then
    .ok (found.insertionSort fun a b => a.createdAt ≤ b.createdAt)
  else .error .corruptRecord

/-- `RealtimeActionStore.List`. -/
def listActions (maxActions : Nat) (app : AppId) (channel messageId : String) :
    HubM (Except StoreError (List RealtimeMessageAction)) := do
  match actionKey E maxActions app channel messageId with
  | none => return .error .invalidRecord
  | some key =>
    match ← redis (.listActions key) with
    | .fields fields =>
      if fields.lookup "_exists" ≠ some (.text "1") then return .error .notFound
      else return actionsOf app channel messageId fields
    | _ => return .error .unavailable

/-- `RealtimeActionStore.Remove`. -/
def removeAction (maxActions : Nat) (app : AppId) (channel messageId actionId clientId : String) :
    HubM (Except StoreError RealtimeMessageAction) := do
  match actionKey E maxActions app channel messageId with
  | none => return .error .invalidRecord
  | some key =>
    match ← redis (.removeAction key actionId clientId) with
    | .notFound => return .error .notFound
    | .forbidden => return .error .forbidden
    | .action removed => return .ok removed
    | _ => return .error .unavailable

/-- `RealtimeHistoryStore.key`. -/
def historyKey (maxLen : Nat) (app : AppId) (channel : String) : Option String :=
  if 1 ≤ maxLen ∧ maxLen ≤ 10000 then E.keys.realtimeHistory app channel else none

/-- `RealtimeHistoryStore.Append`. -/
def appendHistory (maxLen : Nat) (app : AppId) (channel : String) (frame : ChannelFrame) :
    HubM (Except StoreError Unit) := do
  match historyKey E maxLen app channel with
  | none => return .error .invalidRecord
  | some key =>
    match ← redis (.appendHistory key maxLen frame) with
    | .appended => return .ok ()
    | _ => return .error .unavailable

/-- Redis writes an id as two numbers of 64 bits. -/
def streamIdText (id : Nat) : List Char := Nat.toDigits 10 (id / 2 ^ 64) ++ '-' :: Nat.toDigits 10 (id % 2 ^ 64)

/-- The numbers of a text that matches `redisStreamIDPattern`. -/
def parseStreamId (text : List Char) : Option (Nat × Nat) :=
  match text.takeWhile Char.isDigit, text.dropWhile Char.isDigit with
  | ms, '-' :: seq =>
    if ms ≠ [] ∧ seq ≠ [] ∧ seq.all Char.isDigit then some (Nat.ofDigitChars 10 ms 0, Nat.ofDigitChars 10 seq 0)
    else none
  | _, _ => none

def encodeHistoryCursor (id : Nat) : String := String.ofList (Base64.encode ((streamIdText id).map Char.toNat))

def decodeHistoryCursor (cursor : String) : Option (Nat × Nat) :=
  (Base64.decode cursor.toList).bind fun raw => parseStreamId (raw.map Char.ofNat)

/-- The id a page starts before: none from the end. -/
def decodeCursor (cursor : String) : Option (Option (Nat × Nat)) :=
  if cursor = "" then some none else (decodeHistoryCursor cursor).map some

/-- The entries of a page in the order of time, each with its cursor, and the cursor of the next page. -/
def historyPage (limit : Nat) (found : List (Nat × ChannelFrame)) : List (String × ChannelFrame) × String :=
  let page := found.take limit
  let next := if limit < found.length then (page.getLast?.map fun e => encodeHistoryCursor e.1).getD "" else ""
  ((page.map fun e => (encodeHistoryCursor e.1, e.2)).reverse, next)

/-- `RealtimeHistoryStore.Read`. -/
def readHistory (maxLen : Nat) (app : AppId) (channel : String) (r : HistoryRequest) :
    HubM (Except StoreError (List (String × ChannelFrame) × String)) := do
  match historyKey E maxLen app channel, decodeCursor r.cursor with
  | some key, some before =>
    if r.limit < 1 || 100 < r.limit then return .error .invalidRecord
    -- Redis refuses larger numbers
    if before.any fun id => 2 ^ 64 ≤ id.1 || 2 ^ 64 ≤ id.2 then return .error .unavailable
    match ← redis (.readHistory key (before.map fun id => id.1 * 2 ^ 64 + id.2) (r.limit.toNat + 1)) with
    | .entries found => return .ok (historyPage r.limit.toNat found)
    | _ => return .error .unavailable
  | _, _ => return .error .invalidRecord

/-- `RealtimePresenceStore.input`. -/
def presenceKeys (p : Peer) (channel : String) : Option (String × String) :=
  if [p.appId.text, channel, p.clientId, p.id].all validKeyPart then
    match E.keys.realtimePresence p.appId channel p.id, E.keys.realtimePresenceIndex p.appId channel with
    | some memberKey, some indexKey => some (memberKey, indexKey)
    | _, _ => none
  else none

/-- `RealtimePresenceStore.Upsert`: whether the connection was not present, and the occupancy. -/
def upsertPresence (p : Peer) (channel : String) : HubM (Option (Bool × Nat)) := do
  match presenceKeys E p channel with
  | none => return none
  | some (memberKey, indexKey) =>
    match ← redis (.upsertPresence memberKey indexKey p.id connectionRegistryTTL) with
    | .presence joined occupancy => return some (joined, occupancy)
    | _ => return none

/-- `RealtimePresenceStore.Delete`. -/
def deletePresence (p : Peer) (channel : String) : HubM (Option Nat) := do
  match presenceKeys E p channel with
  | none => return none
  | some (memberKey, indexKey) =>
    match ← redis (.deletePresence memberKey indexKey p.id) with
    | .presence _ occupancy => return some occupancy
    | _ => return none

/-- `RealtimePublishLimiter.Allow`; `none` is an error. -/
def allowPublish (limits : RealtimePublishLimits) (p : Peer) (channel : String) : HubM (Option Bool) :=
  go [("realtime-publish-app", limits.app), ("realtime-publish-connection:" ++ p.id, limits.connection),
    ("realtime-publish-channel:" ++ channel, limits.channel)]
where
  go : List (String × Nat) → HubM (Option Bool)
    | [] => return some true
    | (dimension, limit) :: rest => do
      match E.keys.rateLimit p.appId dimension limits.window with
      | none => return none
      | some key =>
        match ← redis (.tokenBucket key limit) with
        | .allowed true => go rest
        | .allowed false => return some false
        | _ => return none

/-! ## Delivery -/

/-- `DeliverV2`; the result is the number of sessions that the frame is for. -/
def deliverV2 (gateway : String) (app : AppId) (frame : ChannelFrame) : HubM Nat := do
  if !validV2Delivery E.encodings app frame then return 0
  match ← perform (.deliver gateway app frame) with
  | .delivery targets overflow buffered =>
    overflow.forM shut
    targets.forM fun p => sendTo p (.channel frame)
    return targets.length + buffered
  | _ => return 0

def publishRealtimeV2 (app : AppId) (frame : ChannelFrame) : HubM Bool := do
  if !validV2Delivery E.encodings app frame then return false
  flag (.publish app frame)

/-- `dispatchV2`; the result says whether it returned nil. -/
def dispatchV2 (gateway : String) (app : AppId) (frame : ChannelFrame) : HubM Bool := do
  if E.bridged then publishRealtimeV2 E app frame
  else
    let _ ← deliverV2 E gateway app frame
    return true

/-! ## Subscriptions -/

section

variable (p : Peer)

def persistChannels : HubM Bool := do
  if !(← flag (.isActive p)) then return false
  if !E.registry || !p.v2 then return true
  if ← flag (.registry p) then return true
  shut p
  return false

def registryUnavailable : ProtocolError :=
  ⟨"realtime_unavailable", "Connection registry is temporarily unavailable."⟩

def subscribeV2 (channels : List String) (rewind : Bool) : HubM (Option ProtocolError) := do
  if let some e := validateChannels channels then return some e
  if let some e ← checked (.subscribeV2 p channels rewind) then return some e
  if ← persistChannels E p then return none
  return some registryUnavailable

def unsubscribeV2 (channels : List String) : HubM (Option ProtocolError) := do
  if let some e := validateChannels channels then return some e
  if let some e ← checked (.unsubscribeV2 p channels) then return some e
  if ← persistChannels E p then return none
  return some registryUnavailable

/-! ## History and rewinds -/

def invalidHistory : ProtocolError :=
  ⟨"invalid_history", "History requires a valid channel, limit, and optional cursor."⟩

def historyUnavailable : ProtocolError :=
  ⟨"history_unavailable", "Realtime history is temporarily unavailable."⟩

/-- The check of `HistoryForApp` on an entry. -/
def historical (app : AppId) (channel : String) (f : ChannelFrame) : Bool :=
  f.type = .channelMessage && f.appId = app.text && f.channel = channel && f.audience = some .all
    && validV2Delivery E.encodings app f

/-- The `history.result` frame of a page. -/
def historyResult (channel : String) (entries : List (String × ChannelFrame)) (next : String) : ServerFrame :=
  let items := entries.map fun e => { e.2 with cursor := e.1 }
  .history channel items next ((items.getLast?.map (·.cursor)).getD "")

def historyForApp (app : AppId) (channel : String) (r : HistoryRequest) : HubM (Except ProtocolError ServerFrame) := do
  if !validRealtimeChannel channel || (validateHistoryRequest r).isSome then return .error invalidHistory
  match E.historyStore with
  | none => return .error historyUnavailable
  | some maxLen =>
    match ← readHistory E maxLen app channel r with
    | .error .invalidRecord => return .error invalidHistory
    | .error _ => return .error historyUnavailable
    | .ok (entries, next) =>
      if entries.all fun e => historical E app channel e.2 then return .ok (historyResult channel entries next)
      else return .error historyUnavailable

def historyV2 (channel : String) (r : HistoryRequest) : HubM (Except ProtocolError ServerFrame) := do
  if !validRealtimeChannel channel || (validateHistoryRequest r).isSome then return .error invalidHistory
  if !p.allowed channel .history then
    return .error ⟨"forbidden", "The token does not allow history for this channel."⟩
  if !(← flag (.isActive p)) || !p.v2 then return .error connectionClosed
  historyForApp E p.appId channel r

/-- The messages in a page. -/
def pageItems : ServerFrame → List ChannelFrame
  | .history _ items _ _ => items
  | _ => []

/-- The ids that `FinishRewindV2` collects from the pages. -/
def seenIds (pages : List ServerFrame) : List String :=
  (((pages.flatMap pageItems).map (·.messageId)).filter (· ≠ "")).dedup

/-- The loop over the buffered frames, which ends when a `Send` fails. -/
def sendBuffered (p : Peer) (seen : List String) : List ChannelFrame → HubM Bool
  | [] => return true
  | f :: rest => do
    if f.messageId ≠ "" && seen.contains f.messageId then sendBuffered p seen rest
    else if ← send p (.channel f) then sendBuffered p seen rest
    else return false

/-- The loop of `FinishRewindV2`, for a number of rounds. -/
def finishRewindV2 (p : Peer) (seen : List String) : Nat → HubM Unit
  | 0 => return ()
  | rounds + 1 => do
    match ← perform (.finishRewind p seen) with
    | .drained (f :: rest) =>
      if ← sendBuffered p seen (f :: rest) then finishRewindV2 p seen rounds
    | _ => return ()

/-- The loop over the channels of a rewinding `subscribe`, with the pages it has sent. -/
def rewindPages (E : Env) (p : Peer) (r : HistoryRequest) (pages : List ServerFrame) :
    List String → HubM (List ServerFrame)
  | [] => return pages
  | channel :: rest => do
    match ← historyV2 E p channel r with
    | .error e =>
      sendTo p (.error e)
      return pages
    | .ok page =>
      sendTo p page
      rewindPages E p r (pages ++ [page]) rest

/-- The reader's `subscribe`. -/
def readSubscribe (channels : List String) (rewind : Option HistoryRequest) (rounds : Nat) : HubM Unit := do
  match ← subscribeV2 E p channels rewind.isSome with
  | some e => sendTo p (.error e)
  | none =>
    match rewind with
    | none => sendTo p (.subscribed [] channels)
    | some r =>
      let pages ← rewindPages E p r [] channels
      sendTo p (.subscribed [] channels)
      finishRewindV2 p (seenIds pages) rounds

/-! ## Publishing -/

def validatePublishV2 (channel : String) : HubM (Option ProtocolError) := do
  if !p.allowed channel .publish then
    return some ⟨"forbidden", "The token does not allow publishing to this channel."⟩
  if !(← flag (.isActive p)) || !p.v2 then return some connectionClosed
  return none

def ratePublishV2 (channel : String) : HubM (Option ProtocolError) := do
  match E.publishLimiter with
  | none => return none
  | some limits =>
    match ← allowPublish E limits p channel with
    | none => return some ⟨"realtime_unavailable", "Realtime rate limiting is temporarily unavailable."⟩
    | some false => return some ⟨"rate_limited", "Realtime publish rate limit exceeded."⟩
    | some true => return none

/-- The `channel.message` frame of a publication. -/
def messageFrame (channel : String) (audience : Audience) (data : String)
    (encryption : Option EncryptionEnvelope) (file : Option RealtimeFile) (uuid : Uuid) (now : Int) :
    ChannelFrame where
  type := .channelMessage
  appId := p.appId.text
  channel := channel
  publisherAppId := p.appId.text
  publisherClientId := p.clientId
  publisherConnectionId := p.id
  messageId := "msg_" ++ uuid.text
  publishedAt := some now
  audience := some audience
  data := data
  encryption := encryption
  file := file

/-- Both publish paths record the message for actions on it. -/
def recordForActions (frame : ChannelFrame) : HubM (Option ProtocolError) := do
  match E.actionStore with
  | none => return none
  | some maxActions =>
    match ← recordMessage E maxActions p.appId frame.channel frame.messageId frame.encryption.isSome with
    | .ok () => return none
    | .error _ =>
      return some ⟨"realtime_unavailable", "Realtime message state is temporarily unavailable."⟩

/-- Both publish paths append a message for everybody to the history, if the token allows history. -/
def appendForHistory (audience : Audience) (frame : ChannelFrame) : HubM (Option ProtocolError) := do
  match E.historyStore with
  | none => return none
  | some maxLen =>
    if audience = .all && p.allowed frame.channel .history then
      match ← appendHistory E maxLen p.appId frame.channel frame with
      | .ok () => return none
      | .error _ => return some historyUnavailable
    else return none

/-- What both publish paths do before they route a frame. -/
def storeMessage (audience : Audience) (frame : ChannelFrame) : HubM (Option ProtocolError) := do
  if let some e ← recordForActions E p frame then return some e
  appendForHistory E p audience frame

def routingUnavailable : ProtocolError :=
  ⟨"realtime_unavailable", "Realtime routing is temporarily unavailable."⟩

def publishPreparedV2 (channel : String) (audience : Option Audience) (data : String)
    (encryption : Option EncryptionEnvelope) : HubM (Except ProtocolError String) := do
  let audience := audience.getD .all
  let (uuid, now) ← stamp
  let frame := messageFrame p channel audience data encryption none uuid now
  if let some e ← storeMessage E p audience frame then return .error e
  if E.bridged then
    if ← publishRealtimeV2 E p.appId frame then return .ok frame.messageId
    else return .error routingUnavailable
  else
    let delivered ← deliverV2 E p.gateway p.appId frame
    match audience with
    | .connection _ | .client _ =>
      if delivered = 0 then
        return .error ⟨"target_not_found", "No subscribed target exists in this application."⟩
      else return .ok frame.messageId
    | _ => return .ok frame.messageId

/-- `PublishV2`, on a frame that `DecodeClientFrameV2` accepts. -/
def publishV2 (channel : String) (audience : Option Audience) (data : String)
    (encryption : Option EncryptionEnvelope) : HubM (Option ProtocolError) := do
  if let some e ← validatePublishV2 p channel then return some e
  if let some e ← ratePublishV2 E p channel then return some e
  match ← publishPreparedV2 E p channel audience data encryption with
  | .ok _ => return none
  | .error e => return some e

/-- A check on every item, and the codes it gives. -/
def preflight (check : PublishItem → HubM (Option ProtocolError)) : List PublishItem → HubM (List String)
  | [] => return []
  | item :: rest => do
    let e ← check item
    let codes ← preflight check rest
    return (e.map (·.code)).getD "" :: codes

def rejectedBatch (items : List PublishItem) (codes : List String) : ServerFrame :=
  .batchResult (items.zipWith (fun item code =>
    { id := item.id, accepted := false, messageId := "", code := if code = "" then "batch_rejected" else code }) codes)

/-- The last loop of `PublishBatchV2`. -/
def publishItems (E : Env) (p : Peer) : List PublishItem → HubM (List PublishOutcome)
  | [] => return []
  | item :: rest => do
    let r ← publishPreparedV2 E p item.channel item.audience item.data item.encryption
    let outcomes ← publishItems E p rest
    match r with
    | .ok messageId => return ⟨item.id, true, messageId, ""⟩ :: outcomes
    | .error e => return ⟨item.id, false, "", e.code⟩ :: outcomes

/-- `PublishBatchV2`, on items that `validatePublishItems` accepts. -/
def publishBatchV2 (items : List PublishItem) : HubM ServerFrame := do
  let codes ← preflight (fun item => validatePublishV2 p item.channel) items
  if codes.any (· ≠ "") then return rejectedBatch items codes
  let codes ← preflight (fun item => ratePublishV2 E p item.channel) items
  if codes.any (· ≠ "") then return rejectedBatch items codes
  return .batchResult (← publishItems E p items)

/-- `PublishFileV2`, on a frame that `DecodeClientFrameV2` accepts. -/
def publishFileV2 (channel fileId : String) (audience : Option Audience) : HubM (Option ProtocolError) := do
  if !p.allowed channel .filePublish then
    return some ⟨"forbidden", "The token does not allow file publish on this channel."⟩
  if !(← flag (.isActive p)) || !p.v2 then return some connectionClosed
  if !E.fileResolver then return some ⟨"file_messaging_disabled", "File messaging is not configured."⟩
  if let some e ← ratePublishV2 E p channel then return some e
  match ← perform (.resolveFile p.appId fileId channel) with
  | .file (.ok file) =>
    let audience := audience.getD .all
    let (uuid, now) ← stamp
    let frame := messageFrame p channel audience "" none (some file) uuid now
    if let some e ← storeMessage E p audience frame then return some e
    if ← dispatchV2 E p.gateway p.appId frame then return none
    return some routingUnavailable
  | .file (.error .notFound) => return some ⟨"file_not_found", "The file does not exist."⟩
  | .file (.error .conflict) => return some ⟨"file_not_ready", "The file is not ready for this channel."⟩
  | _ => return some ⟨"realtime_unavailable", "File messaging is temporarily unavailable."⟩

/-! ## Actions -/

def validateActionSource (channel : String) : HubM (Option ProtocolError) := do
  if !p.allowed channel .annotate then
    return some ⟨"forbidden", "The token does not allow message actions on this channel."⟩
  if !(← flag (.isActive p)) || !p.v2 then return some connectionClosed
  return none

def actionStoreError : StoreError → ProtocolError
  | .notFound => ⟨"message_not_found", "The referenced message or action does not exist."⟩
  | .forbidden => ⟨"forbidden", "Only the action author may remove it."⟩
  | .limitExceeded => ⟨"action_limit", "The message action limit has been reached."⟩
  | _ => ⟨"realtime_unavailable", "Realtime message actions are temporarily unavailable."⟩

def actionsUnavailable : ProtocolError :=
  ⟨"realtime_unavailable", "Realtime message actions are unavailable."⟩

/-- The frame that announces an action. -/
def actionFrame (type : FrameType) (p : Peer) (channel messageId : String) (a : RealtimeMessageAction) :
    ChannelFrame where
  type := type
  appId := p.appId.text
  channel := channel
  messageId := messageId
  action := some a

/-- The action that `PutActionV2` stores. -/
def newAction (channel messageId : String) (type : ActionType) (idempotencyKey data : String)
    (uuid : Uuid) (now : Int) : RealtimeMessageAction where
  id := "action_" ++ uuid.text
  appId := p.appId.text
  channel := channel
  messageId := messageId
  clientId := p.clientId
  type := type
  idempotencyKey := idempotencyKey
  data := data
  createdAt := now
  removedAt := none

/-- `PutActionV2`, on a frame that `DecodeClientFrameV2` accepts. -/
def putActionV2 (channel messageId : String) (type : ActionType)
    (idempotencyKey data : String) : HubM (Option ProtocolError) := do
  if let some e ← validateActionSource p channel then return some e
  match E.actionStore with
  | none => return some actionsUnavailable
  | some maxActions =>
    let (uuid, now) ← stamp
    match ← putAction E maxActions p.appId (newAction p channel messageId type idempotencyKey data uuid now) with
    | .error e => return some (actionStoreError e)
    | .ok stored =>
      if ← dispatchV2 E p.gateway p.appId (actionFrame .messageActionUpdated p channel messageId stored) then
        return none
      return some routingUnavailable

def listActionsV2 (channel messageId : String) : HubM (Except ProtocolError ServerFrame) := do
  if let some e ← validateActionSource p channel then return .error e
  match E.actionStore with
  | none => return .error actionsUnavailable
  | some maxActions =>
    match ← listActions E maxActions p.appId channel messageId with
    | .error e => return .error (actionStoreError e)
    | .ok actions => return .ok (.actions p.appId.text channel messageId actions)

/-- `RemoveActionV2`, on a frame that `DecodeClientFrameV2` accepts. -/
def removeActionV2 (channel messageId actionId : String) : HubM (Option ProtocolError) := do
  if let some e ← validateActionSource p channel then return some e
  match E.actionStore with
  | none => return some actionsUnavailable
  | some maxActions =>
    match ← removeAction E maxActions p.appId channel messageId actionId p.clientId with
    | .error e => return some (actionStoreError e)
    | .ok removed =>
      if ← dispatchV2 E p.gateway p.appId (actionFrame .messageActionRemoved p channel messageId removed) then
        return none
      return some routingUnavailable

/-! ## Presence -/

/-- A presence frame. -/
def presenceFrame (type : FrameType) (app : AppId) (channel clientId connectionId : String) (occupancy : Nat)
    (data : String) (uuid : Uuid) (now : Int) : ChannelFrame where
  type := type
  appId := app.text
  channel := channel
  publisherClientId := clientId
  publisherConnectionId := connectionId
  messageId := "msg_" ++ uuid.text
  publishedAt := some now
  occupancy := occupancy
  data := data

/-- The presence of a session after its section: what Redis knows counts, if there is a store. -/
def storePresence (channel : String) (joined : Bool) (occupancy : Nat) : HubM (Option (Bool × Nat)) := do
  if !E.presenceStore then return some (joined, occupancy)
  match ← upsertPresence E p channel with
  | some (redisJoined, redisOccupancy) => return some (!redisJoined, redisOccupancy)
  | none =>
    shut p
    return none

/-- `UpdatePresence`, on a frame that `DecodeClientFrameV2` accepts. -/
def updatePresence (channel data : String) : HubM (Option ProtocolError) := do
  if !p.allowed channel .presence then
    return some ⟨"forbidden", "The token does not allow presence on this channel."⟩
  match ← perform (.setPresence p channel data) with
  | .presence (.error e) => return some e
  | .presence (.ok (joined, occupancy)) =>
    match ← storePresence E p channel joined occupancy with
    | none => return some ⟨"realtime_unavailable", "Presence state is temporarily unavailable."⟩
    | some (joined, occupancy) =>
      let (uuid, now) ← stamp
      let type : FrameType := if joined then .presenceUpdate else .presenceJoin
      let frame := presenceFrame type p.appId channel p.clientId p.id occupancy data uuid now
      if ← dispatchV2 E p.gateway p.appId frame then return none
      return some routingUnavailable
  | _ => return some connectionClosed

/-- One channel of `ReconcilePresence`. -/
def reconcilePresence (gateway : String) (app : AppId) (channel : String) : HubM Unit := do
  if !(← flag (.isSubscribed gateway app channel)) || !E.presenceStore then return ()
  match E.keys.realtimePresenceIndex app channel with
  | none => return ()
  | some indexKey =>
    match ← redis (.expirePresence indexKey 100) with
    | .expired connections occupancy =>
      connections.forM fun connection => do
        let (uuid, now) ← stamp
        let _ ← dispatchV2 E gateway app
          (presenceFrame .presenceTimeout app channel "" connection occupancy "" uuid now)
        return ()
    | _ => return ()

/-- The occupancy that Redis knows after a session has left a channel. -/
def leavePresence (channel : String) : HubM (Option Nat) :=
  if E.presenceStore then deletePresence E p channel else return none

/-- What `Close` does for a channel that the session was present in, with the occupancy its hub knows. -/
def leaveChannel (e : String × Nat) : HubM Unit := do
  let occupancy ← leavePresence E p e.1
  let (uuid, now) ← stamp
  let _ ← dispatchV2 E p.gateway p.appId
    (presenceFrame .presenceLeave p.appId e.1 p.clientId p.id (occupancy.getD e.2) "" uuid now)
  return ()

def close : HubM Unit := do
  shut p
  match ← perform (.remove p) with
  | .leaves channels => channels.forM (leaveChannel E p)
  | _ => return ()

/-- The loop over the presence of a session in `refreshRegistry`. -/
def refreshPresence (E : Env) (p : Peer) : List (String × String) → HubM Unit
  | [] => return ()
  | (channel, _) :: rest => do
    match ← upsertPresence E p channel with
    | some _ => refreshPresence E p rest
    | none => shut p

/-- A tick of `refreshRegistry`. -/
def refreshRegistry : HubM Unit := do
  match ← perform (.presenceOf p) with
  | .present (some presence) =>
    if ← flag (.registry p) then
      if E.presenceStore then refreshPresence E p presence
    else shut p
  | _ => return ()

/-! ## Calls -/

/-- An error goes to the client. -/
def report : Option ProtocolError → HubM Unit
  | some e => sendTo p (.error e)
  | none => return ()

/-- A frame or an error goes to the client. -/
def answer : Except ProtocolError ServerFrame → HubM Unit
  | .ok f => sendTo p f
  | .error e => sendTo p (.error e)

/-- The `switch` of `readLoop`, on a frame that was accepted. -/
def handleFrame (rounds : Nat) : ClientFrame → HubM Unit
  | .subscribe channels rewind => readSubscribe E p channels rewind rounds
  | .unsubscribe channels _ => do
    match ← unsubscribeV2 E p channels with
    | some e => sendTo p (.error e)
    | none => sendTo p (.unsubscribed channels)
  | .channelPublish channel audience data encryption => do
    report p (← publishV2 E p channel audience data encryption)
  | .channelPublishBatch items => do sendTo p (← publishBatchV2 E p items)
  | .historyGet channel r => do answer p (← historyV2 E p channel r)
  | .presenceUpdate channel data => do report p (← updatePresence E p channel data)
  | .messageActionPut channel messageId type idempotencyKey data =>
    match type with
    | some type => do report p (← putActionV2 E p channel messageId type idempotencyKey data)
    | none => return ()
  | .messageActionsGet channel messageId => do answer p (← listActionsV2 E p channel messageId)
  | .messageActionRemove channel messageId actionId _ => do
    report p (← removeActionV2 E p channel messageId actionId)
  | .filePublish channel fileId audience _ _ => do report p (← publishFileV2 E p channel fileId audience)
  | .ping => sendTo p .pong

/-- The reader of a session of the second protocol, on one frame. -/
def readFrame (rounds : Nat) (frame : ClientFrame) : HubM Unit :=
  match frame.check E.encodings with
  | some e => sendTo p (.error e)
  | none => handleFrame E p rounds frame

/-- The reader of a session of the first protocol, on a `subscribe` frame. -/
def readTopics (topics : List String) : HubM Unit := do
  match validateTopics topics with
  | .error e => sendTo p (.error e)
  | .ok parsed =>
    match ← checked (.subscribe p parsed) with
    | some e => sendTo p (.error e)
    | none => sendTo p (.subscribed topics [])

end

/-- `PublishChannel`: an event with a routing rule that names a channel, or a signed publish request. -/
def publishChannel (gateway : String) (publisher : AppId) (channel data : String) : HubM Unit := do
  if validRealtimeChannel channel then
    let _ ← perform (.select gateway none (.channel channel)
      (.channel { type := .channelMessage, channel, publisherAppId := publisher.text, data }))
  return ()

def handleRealtimeV2 (gateway : String) (app : AppId) (n : Nat) : HubM Unit := do
  match ← perform (.receive app n) with
  | .message (some frame) =>
    let _ ← deliverV2 E gateway app frame
    return ()
  | _ => return ()

/-- `publish` for a topic of one application: `PublishEvent`, `PublishJob` and `Deliver`. -/
def publishTopic (gateway : String) (target : AppId) (topic : Topic) (payload : String) : HubM Unit := do
  match topic with
  | .channel _ => return ()
  | _ =>
    let _ ← perform (.select gateway (some target) topic (.observation topic payload))
    return ()

inductive Call where
  /-- A client of the second protocol sends a frame. -/
  | frame (p : Peer) (frame : ClientFrame) (rounds : Nat)
  /-- A client of the first protocol subscribes. -/
  | topics (p : Peer) (topics : List String)
  | close (p : Peer)
  | refresh (p : Peer)
  /-- A gateway receives a channel frame from the broker. -/
  | receive (gateway : String) (app : AppId) (n : Nat)
  | reconcile (gateway : String) (app : AppId) (channel : String)
  /-- A gateway gets a channel message of the first protocol. -/
  | publishChannel (gateway : String) (publisher : AppId) (channel data : String)
  /-- A gateway gets an event or a job that a source has published. -/
  | publishTopic (gateway : String) (source target : AppId) (topic : Topic) (payload : String)

def Call.program : Call → HubM Unit
  | .frame p f rounds => if p.v2 then readFrame E p rounds f else return ()
  | .topics p names => if p.v2 then return () else readTopics p names
  | .close p => Realtime.close E p
  | .refresh p => if p.v2 then refreshRegistry E p else return ()
  | .receive gateway app n => handleRealtimeV2 E gateway app n
  | .reconcile gateway app channel => reconcilePresence E gateway app channel
  | .publishChannel gateway publisher channel data => Realtime.publishChannel gateway publisher channel data
  | .publishTopic gateway _ target topic payload => Realtime.publishTopic gateway target topic payload

/-! ## Gateways -/

/-- The gateways and the calls of all their clients. -/
abbrev HubPool := Pool World Call Statement Reply Unit

/-- Every interleaving of calls and events. -/
def hub : Mealy HubPool (Turn Call Event Choice) (Option Reply) :=
  Pool.machine (hubMachine E) (Call.program E) Input.statement Input.event

/-- The gateways after a run. -/
def hubAfter (ts : List (Turn Call Event Choice)) : HubPool := (hub E).run ⟨{}, []⟩ ts

/-! ### A small one -/

/-- A single gateway without stores. -/
def sampleEnv : Env where
  keys := ⟨"rh"⟩
  encodings := ⟨fun _ => none⟩
  admits _ _ _ := true
  bridged := false
  registry := false
  presenceStore := false
  fileResolver := false
  historyStore := none
  actionStore := none
  publishLimiter := none

def sampleApp : AppId := ⟨"app_a", by decide, by decide⟩

def otherApp : AppId := ⟨"app_b", by decide, by decide⟩

/-- A session that may subscribe, publish and read the history of a channel. -/
def samplePeer (app : AppId) : Peer where
  gateway := "gw"
  appId := app
  clientId := "user"
  id := "conn_" ++ app.text
  v2 := true
  capabilities := [("ops", [.subscribe, .publish, .history])]

end RelayHub.Realtime
