import RelayHub.Lib.Text

/-! # RelayHub realtime — channels, grants and Redis keys

A channel name is a text over a small alphabet that includes the colon, and a token grants permissions on
one channel or on the channels one segment below a namespace. Redis keys put application, channel and
further parts between colons. An application id has no colon, so the application can be read back from a
key (`Keyspace.app_key`) and keys of two applications differ; the parts behind it are not delimited as
well. -/

namespace RelayHub.Realtime

open List Text

/-! ## Channels -/

def channelChar (c : Char) : Bool :=
  c.isLower || c.isDigit || c = '_' || c = '.' || c = ':' || c = '-'

/-- `realtimeChannelPattern`. -/
def matchesChannelPattern (channel : String) : Bool :=
  match channel.toList with
  | [] => false
  | c :: rest => (c.isLower || c.isDigit) && decide (rest.length ≤ 95) && rest.all channelChar

def validRealtimeChannel (channel : String) : Bool :=
  decide (channel = trimSpace channel) && matchesChannelPattern channel

def privateRealtimeChannel (channel : String) : Bool :=
  validRealtimeChannel channel && ((cutPrefix channel "private:").any fun rest => rest ≠ "")

/-- `completeRealtimeNamespace`: no segment is empty. -/
def completeRealtimeNamespace (value : String) : Bool :=
  (value.toList.splitOn ':').all fun segment => !segment.isEmpty

def validRealtimeChannelGrant (grant : String) : Bool :=
  validRealtimeChannel grant && completeRealtimeNamespace grant
    || match cutSuffix grant ":*" with
      | none => false
      | some namesp =>
        decide (grant.toList.count '*' = 1) && decide (namesp ≠ "") && validRealtimeChannel namesp
          && completeRealtimeNamespace namesp

def realtimeChannelGrantMatches (grant channel : String) : Bool :=
  validRealtimeChannel channel && validRealtimeChannelGrant grant
    && (decide (grant = channel)
      || match cutSuffix grant ":*" with
        | none => false
        | some namesp =>
          match cutPrefix channel (namesp ++ ":") with
          | none => false
          | some remainder => decide (remainder ≠ "") && !remainder.toList.contains ':')

/-- `realtimeClientIDPattern`, which `validClientID` of the token issuer checks as well. -/
def matchesClientIdPattern (value : String) : Bool :=
  decide (1 ≤ value.toList.length) && decide (value.toList.length ≤ 128)
    && value.toList.all fun c => c.isAlphanum || c = '_' || c = '.' || c = ':' || c = '-'

/-! ## Identities -/

/-- The id of an application: `app_` and a text in base64. -/
@[ext] structure AppId where
  text : String
  nonempty : text ≠ ""
  plain : text.toList.all (fun c => c.isAlphanum || c = '_' || c = '-') = true
  deriving DecidableEq

/-- What a token may permit on a channel. -/
inductive Permission where
  | subscribe
  | publish
  | presence
  | history
  | annotate
  | filePublish
  | pushManage
  deriving DecidableEq

/-- What never changes about a session: the gateway that holds it and what its token says. -/
structure Peer where
  gateway : String
  appId : AppId
  clientId : String
  id : String
  /-- Its protocol is `relayhub.realtime.v2`. -/
  v2 : Bool
  capabilities : List (String × List Permission)
  deriving DecidableEq

def Peer.allowed (p : Peer) (channel : String) (action : Permission) : Bool :=
  p.capabilities.any fun g => g.2.contains action && realtimeChannelGrantMatches g.1 channel

/-! ## Keys -/

def validKeyPart (part : String) : Bool :=
  decide (part ≠ "") && decide (part.utf8ByteSize ≤ 128)
    && part.toList.all fun c => c ≠ '\x7b' && c ≠ '\x7d' && !isSpace c && !isControl c

theorem AppId.plain_char (a : AppId) {c : Char} (h : c ∈ a.text.toList) : (c ≠ ':' && c ≠ '\x7d') = true := by
  have hc := all_eq_true.mp a.plain c h
  by_contra hcon
  simp only [Bool.and_eq_true, decide_eq_true_eq, not_and_or, not_not] at hcon
  rcases hcon with rfl | rfl <;> exact absurd hc (by decide)

structure Keyspace where
  keyPrefix : String
  deriving DecidableEq

namespace Keyspace

variable (k : Keyspace)

/-- `keyPrefixPattern`. -/
def valid : Bool :=
  decide (1 ≤ k.keyPrefix.toList.length) && decide (k.keyPrefix.toList.length ≤ 32)
    && k.keyPrefix.toList.all fun c => c.isLower || c.isDigit || c = ':' || c = '_' || c = '-'

/-- A key whose hash tag starts with a kind and an application. -/
def key (kind : String) (appId : AppId) (rest : String) : String :=
  k.keyPrefix ++ ":\x7b" ++ kind ++ ":" ++ appId.text ++ rest

/-- A key, if its parts are fit for one. -/
def checked (parts : List String) (key : String) : Option String :=
  if k.valid && parts.all validKeyPart then some key else none

def rateLimit (appId : AppId) (dimension window : String) : Option String :=
  k.checked [appId.text, dimension, window] (k.key "app" appId ("\x7d:rate:" ++ dimension ++ ":" ++ window))

def realtimePresence (appId : AppId) (channel connectionId : String) : Option String :=
  k.checked [appId.text, channel, connectionId]
    (k.key "presence" appId (":" ++ channel ++ "\x7d:member:" ++ connectionId))

def realtimePresenceIndex (appId : AppId) (channel : String) : Option String :=
  k.checked [appId.text, channel] (k.key "presence" appId (":" ++ channel ++ "\x7d:members"))

def realtimeHistory (appId : AppId) (channel : String) : Option String :=
  k.checked [appId.text, channel] (k.key "history" appId (":" ++ channel ++ "\x7d:messages"))

def realtimeMessageActions (appId : AppId) (channel messageId : String) : Option String :=
  k.checked [appId.text, channel, messageId]
    (k.key "actions" appId (":" ++ channel ++ ":" ++ messageId ++ "\x7d:state"))

/-- The application in a key: what stands between the kind and the next colon or brace. -/
def app (key : String) : List Char :=
  ((key.toList.drop (k.keyPrefix.toList.length + 2)).dropWhile (· ≠ ':')).tail.takeWhile fun c =>
    c ≠ ':' && c ≠ '\x7d'

/-- **The application can be read back from a key.** -/
theorem app_key {kind : String} (hkind : ':' ∉ kind.toList) (a : AppId) {rest : String}
    (hrest : ∀ c ∈ rest.toList.head?, (c ≠ ':' && c ≠ '\x7d') = false) : k.app (k.key kind a rest) = a.text.toList := by
  have hchars : (k.key kind a rest).toList =
      (k.keyPrefix.toList ++ [':', '\x7b']) ++ (kind.toList ++ ':' :: (a.text.toList ++ rest.toList)) := by
    simp [Keyspace.key]
  have hdrop : (k.key kind a rest).toList.drop (k.keyPrefix.toList.length + 2) =
      kind.toList ++ ':' :: (a.text.toList ++ rest.toList) := by
    rw [hchars]
    exact drop_left' (by simp)
  have hkinds : ∀ c ∈ kind.toList, decide (c ≠ ':') = true := fun c hc =>
    decide_eq_true fun h => hkind (h ▸ hc)
  unfold Keyspace.app
  rw [hdrop, dropWhile_run hkinds (by simp), tail_cons, takeWhile_run (fun c => a.plain_char) hrest]

end Keyspace

section Checked

variable {k : Keyspace} {a : AppId} {key : String}

theorem Keyspace.eq_of_checked {parts : List String} {text : String} (h : k.checked parts text = some key) :
    key = text := by
  unfold Keyspace.checked at h
  split at h
  · exact (Option.some.inj h).symm
  · cases h

/-- Keys that are checked are keys of their application. -/
theorem Keyspace.app_of_checked {parts : List String} {kind rest : String}
    (h : k.checked parts (k.key kind a rest) = some key) (hkind : ':' ∉ kind.toList)
    (hrest : ∀ c ∈ rest.toList.head?, (c ≠ ':' && c ≠ '\x7d') = false) : k.app key = a.text.toList := by
  rw [eq_of_checked h]
  exact k.app_key hkind a hrest

end Checked

end RelayHub.Realtime
