import RelayHub.Events.Domain
import RelayHub.Realtime.Channels

/-! # RelayHub realtime — frames

The frames that clients send and the checks of `DecodeClientFrameV2` on their fields, and the frames that
sessions are sent. A `ChannelFrame` is what a channel carries: a message, a presence change or an action on
a message. Every such frame has a message id, and that of an action is the id of the message it is about. -/

namespace RelayHub.Realtime

open Text Events

/-! ## Limits -/

def outboundQueueSize : Nat := 64

def maxChannelsPerFrame : Nat := 100

def maxHistoryItems : Nat := 100

def maxBatchPublishItems : Nat := 50

def maxRewindChannels : Nat := 10

/-! ## Parts of frames -/

structure ProtocolError where
  code : String
  message : String
  deriving DecidableEq

inductive Audience where
  | all
  | others
  | connection (id : String)
  | client (id : String)
  deriving DecidableEq

structure HistoryRequest where
  limit : Int
  cursor : String
  deriving DecidableEq

structure EncryptionEnvelope where
  algorithm : String
  keyId : String
  nonce : String
  ciphertext : String
  deriving DecidableEq

structure PublishItem where
  id : String
  channel : String
  audience : Option Audience
  data : String
  encryption : Option EncryptionEnvelope
  deriving DecidableEq

structure PublishOutcome where
  id : String
  accepted : Bool
  messageId : String
  code : String
  deriving DecidableEq

inductive ActionType where
  | reaction
  | annotation
  deriving DecidableEq

structure RealtimeMessageAction where
  id : String
  appId : String
  channel : String
  messageId : String
  clientId : String
  type : ActionType
  idempotencyKey : String
  data : String
  createdAt : Int
  removedAt : Option Int
  deriving DecidableEq

/-- The fields of `domain.RealtimeFile` that the hub reads. -/
structure RealtimeFile where
  id : String
  appId : String
  channel : String
  objectKey : String
  status : String
  deriving DecidableEq

inductive Topic where
  | events
  | jobs
  | functions
  | channel (name : String)
  deriving DecidableEq

def Topic.isChannel : Topic → Bool
  | .channel _ => true
  | _ => false

/-! ## Frames to sessions -/

/-- The types of the frames that `DeliverV2` takes. -/
inductive FrameType where
  | channelMessage
  | presenceJoin
  | presenceUpdate
  | presenceLeave
  | presenceTimeout
  | messageActionUpdated
  | messageActionRemoved
  deriving DecidableEq

structure ChannelFrame where
  type : FrameType
  appId : String := ""
  channel : String
  publisherAppId : String := ""
  publisherClientId : String := ""
  publisherConnectionId : String := ""
  messageId : String := ""
  publishedAt : Option Int := none
  audience : Option Audience := none
  occupancy : Nat := 0
  data : String := ""
  encryption : Option EncryptionEnvelope := none
  cursor : String := ""
  action : Option RealtimeMessageAction := none
  file : Option RealtimeFile := none
  deriving DecidableEq

inductive ServerFrame where
  | channel (frame : ChannelFrame)
  /-- `history.result`. -/
  | history (channel : String) (items : List ChannelFrame) (nextCursor continuityCursor : String)
  | subscribed (topics channels : List String)
  | unsubscribed (channels : List String)
  | batchResult (outcomes : List PublishOutcome)
  /-- `message.actions.result`. -/
  | actions (appId channel messageId : String) (actions : List RealtimeMessageAction)
  | error (e : ProtocolError)
  | pong
  /-- `event` and `job.updated`. -/
  | observation (topic : Topic) (payload : String)
  deriving DecidableEq

/-! ## Checks -/

/-- What the checks do not look into: the length of a text in `base64.RawURLEncoding`. -/
structure Encodings where
  decodedLength : String → Option Nat

variable (E : Encodings)

def validateMessagePayload (channel data : String) : Option EncryptionEnvelope → Option ProtocolError
  | none =>
    if jsonObject data then none
    else some ⟨"invalid_publish", "Publish requires exactly one JSON object data or encrypted envelope."⟩
  | some e =>
    let invalid : ProtocolError :=
      ⟨"invalid_encryption", "Encrypted publish requires a private channel and a bounded AES-256-GCM envelope."⟩
    if data ≠ "" || !privateRealtimeChannel channel || e.algorithm ≠ "aes-256-gcm"
        || !matchesClientIdPattern e.keyId then some invalid
    else
      match E.decodedLength e.nonce, E.decodedLength e.ciphertext with
      | some 12, some n => if n < 16 || 48 * 1024 < n then some invalid else none
      | _, _ => some invalid

def validateAudience : Option Audience → Option ProtocolError
  | some (.connection id) =>
    if hasPrefix id "conn_" then none
    else some ⟨"invalid_audience", "A connection audience requires connection_id."⟩
  | some (.client id) =>
    if matchesClientIdPattern id then none
    else some ⟨"invalid_audience", "A client audience requires client_id."⟩
  | _ => none

/-- `realtimeCursorPattern`. -/
def matchesCursorPattern (cursor : String) : Bool :=
  decide (1 ≤ cursor.toList.length) && decide (cursor.toList.length ≤ 128)
    && cursor.toList.all fun c => c.isAlphanum || c = '_' || c = '-'

def validateHistoryRequest (r : HistoryRequest) : Option ProtocolError :=
  if r.limit < 1 || (maxHistoryItems : Int) < r.limit || r.cursor ≠ "" && !matchesCursorPattern r.cursor then
    some ⟨"invalid_history", "History requires a limit between 1 and 100 and a valid cursor."⟩
  else none

def validateChannels (channels : List String) : Option ProtocolError :=
  if channels.isEmpty || decide (maxChannelsPerFrame < channels.length) || !channels.all validRealtimeChannel
      || !decide channels.Nodup then
    some ⟨"invalid_channels", "Supply between 1 and 100 exact channels without duplicates."⟩
  else none

/-- The topic that a text of the first protocol names. -/
def Topic.parse (text : String) : Option Topic :=
  if text = "events" then some .events
  else if text = "jobs" then some .jobs
  else if text = "functions" then some .functions
  else
    match cutPrefix text "channel:" with
    | some name => if validRealtimeChannel name then some (.channel name) else none
    | none => none

/-- `validateTopics`, which returns the topics. -/
def validateTopics (topics : List String) : Except ProtocolError (List Topic) :=
  let invalid : ProtocolError :=
    ⟨"invalid_topics", "Supply events, jobs, functions or channel:<name> topics without duplicates."⟩
  if topics.isEmpty || !decide topics.Nodup then .error invalid
  else
    match topics.mapM Topic.parse with
    | some parsed => .ok parsed
    | none => .error invalid

/-- The loop of `validatePublishItems`: the ids seen so far, and whether the items before were encrypted. -/
def checkPublishItems (E : Encodings) (seen : List String) (encrypted : Option Bool) :
    List PublishItem → Option ProtocolError
  | [] => none
  | item :: rest =>
    let invalid : ProtocolError :=
      ⟨"invalid_batch", "Batch items require unique IDs, valid channels, audiences, and JSON object data."⟩
    if !matchesClientIdPattern item.id || seen.contains item.id || !validRealtimeChannel item.channel
        || (validateMessagePayload E item.channel item.data item.encryption).isSome then some invalid
    else if encrypted.any (· ≠ item.encryption.isSome) then
      some ⟨"invalid_batch", "A batch cannot mix encrypted and unencrypted messages."⟩
    else if (validateAudience item.audience).isSome then some invalid
    else checkPublishItems E (item.id :: seen) (some item.encryption.isSome) rest

def validatePublishItems (items : List PublishItem) : Option ProtocolError :=
  if items.isEmpty || decide (maxBatchPublishItems < items.length) then
    some ⟨"invalid_batch", "Batch publish requires between 1 and 50 items."⟩
  else checkPublishItems E [] none items

def validateActionReference (channel messageId : String) : Option ProtocolError :=
  if !validRealtimeChannel channel || !hasPrefix messageId "msg_" || !matchesClientIdPattern messageId then
    some ⟨"invalid_action", "Message action requires a valid channel and message ID."⟩
  else none

def validV2Delivery (app : AppId) (f : ChannelFrame) : Bool :=
  decide (f.appId = app.text) && validRealtimeChannel f.channel && match f.type with
      | .channelMessage =>
        f.audience.isSome && (f.file.any (fun file => file.appId = app.text && file.channel = f.channel && file.id ≠ ""
              && file.objectKey = "" && file.status = "ready")
            || (validateMessagePayload E f.channel f.data f.encryption).isNone)
      | .messageActionUpdated | .messageActionRemoved =>
        f.action.any fun a => a.appId = app.text && a.channel = f.channel && a.messageId = f.messageId
      | .presenceJoin | .presenceUpdate =>
        jsonObject f.data && f.publisherClientId ≠ "" && f.publisherConnectionId ≠ ""
      | .presenceLeave => f.publisherClientId ≠ "" && f.publisherConnectionId ≠ ""
      | .presenceTimeout => f.publisherConnectionId ≠ ""

/-! ## Frames from clients -/

/-- A frame of the second protocol, with the fields that its type reads. -/
inductive ClientFrame where
  | subscribe (channels : List String) (rewind : Option HistoryRequest)
  | unsubscribe (channels : List String) (rewind : Option HistoryRequest)
  | channelPublish (channel : String) (audience : Option Audience) (data : String)
      (encryption : Option EncryptionEnvelope)
  | channelPublishBatch (items : List PublishItem)
  | historyGet (channel : String) (request : HistoryRequest)
  | presenceUpdate (channel data : String)
  | messageActionPut (channel messageId : String) (type : Option ActionType) (idempotencyKey data : String)
  | messageActionsGet (channel messageId : String)
  | messageActionRemove (channel messageId actionId data : String)
  | filePublish (channel fileId : String) (audience : Option Audience) (data : String)
      (encryption : Option EncryptionEnvelope)
  | ping

/-- The `switch` of `DecodeClientFrameV2`. -/
def ClientFrame.check : ClientFrame → Option ProtocolError
  | .subscribe channels rewind =>
    (validateChannels channels).or (rewind.bind fun r =>
        if maxRewindChannels < channels.length then
          some ⟨"invalid_history", "Rewind supports at most 10 channels per subscribe frame."⟩
        else validateHistoryRequest r)
  | .unsubscribe channels rewind =>
    (validateChannels channels).or (rewind.map fun _ => ⟨"invalid_history", "Rewind is only valid when subscribing."⟩)
  | .channelPublish channel audience data encryption =>
    if !validRealtimeChannel channel then
      some ⟨"invalid_publish", "Publish requires a valid channel and JSON object data."⟩
    else (validateMessagePayload E channel data encryption).or (validateAudience audience)
  | .channelPublishBatch items => validatePublishItems E items
  | .historyGet channel request =>
    if !validRealtimeChannel channel then
      some ⟨"invalid_history", "History requires a valid channel, limit, and optional cursor."⟩
    else validateHistoryRequest request
  | .presenceUpdate channel data =>
    if !validRealtimeChannel channel || !jsonObject data then
      some ⟨"invalid_presence", "Presence requires a valid channel and JSON object data."⟩
    else none
  | .messageActionPut channel messageId type idempotencyKey data =>
    if (validateActionReference channel messageId).isSome || type.isNone || !matchesClientIdPattern idempotencyKey
        || !jsonObject data || decide (4096 < data.utf8ByteSize) then
      some ⟨"invalid_action", "Message action requires a valid channel, message, type, idempotency key, and bounded JSON object data."⟩
    else none
  | .messageActionsGet channel messageId => validateActionReference channel messageId
  | .messageActionRemove channel messageId actionId data =>
    if (validateActionReference channel messageId).isSome || !matchesClientIdPattern actionId || data ≠ "" then
      some ⟨"invalid_action", "Message action removal requires valid channel, message, and action IDs."⟩
    else none
  | .filePublish channel fileId audience data encryption =>
    if !validRealtimeChannel channel || !hasPrefix fileId "file_" || !matchesClientIdPattern fileId || data ≠ ""
        || encryption.isSome then
      some ⟨"invalid_file", "File publish requires a valid channel and ready file ID."⟩
    else validateAudience audience
  | .ping => none

end RelayHub.Realtime
