import RelayHub.Lib.Program
import RelayHub.Lib.Table
import RelayHub.Realtime.Redis

/-! # RelayHub realtime — the hub

Gateways keep their sessions in a hub behind a lock, share Redis, and send each other channel frames over a
broker. A `Statement` is what a call does at once: a section under the lock, one of the two steps of
`Send`, an operation on Redis. `hubMachine` runs statements and what happens outside of all calls.

A session that subscribes with a rewind is marked as rewinding on its channels, and `DeliverV2` then puts
their frames into its buffer; the section of `FinishRewindV2` takes the buffer, or ends the rewind when it
is empty. `Close` is split: `shut` closes the `done` channel, which also an overflowing `Send` does, and the
section that removes the session comes in a call of its own. -/

namespace RelayHub.Realtime

open Table

/-! ## Settings -/

structure RealtimePublishLimits where
  app : Nat
  connection : Nat
  channel : Nat
  /-- The window, in milliseconds and as a text. -/
  window : String

/-- What a gateway is configured with, and the functions the model does not look into. -/
structure Env where
  keys : Keyspace
  encodings : Encodings
  /-- Whether a token bucket with a limit admits a request, by the requests before it. -/
  admits : Nat → List Int → Int → Bool
  /-- A `V2Publisher` is set. -/
  bridged : Bool
  registry : Bool
  presenceStore : Bool
  fileResolver : Bool
  /-- The history store, with its `maxLen`. -/
  historyStore : Option Nat
  /-- The action store, with its `maxActions`. -/
  actionStore : Option Nat
  publishLimiter : Option RealtimePublishLimits

/-- `connectionRegistryTTL`, in microseconds. -/
def connectionRegistryTTL : Int := 75000000

def minute : Int := 60000000

/-! ## Sessions -/

/-- The frame is for a connection, whatever it is subscribed to. -/
def ChannelFrame.reaches (f : ChannelFrame) (p : Peer) : Bool :=
  match f.type, f.audience with
  | .channelMessage, some .all => true
  | .channelMessage, some .others => p.id ≠ f.publisherConnectionId
  | .channelMessage, some (.connection id) => p.id = id
  | .channelMessage, some (.client id) => p.clientId = id
  | .channelMessage, none => false
  | _, _ => true

structure Session where
  peer : Peer
  /-- It is in the `sessions` map of its hub. -/
  active : Bool := true
  /-- Its `done` channel is closed. -/
  done : Bool := false
  topics : List Topic := []
  presence : List (String × String) := []
  rewinding : List String := []
  rewindBuffer : List ChannelFrame := []
  rewindSeen : List (String × Int) := []
  /-- The frames in its queue. -/
  outbound : List ServerFrame := []
  /-- The frames its writer has taken from the queue. -/
  written : List ServerFrame := []
  /-- The frames that a `publish` has selected it for and not sent yet. -/
  selected : List ServerFrame := []
  /-- Only the first protocol subscribes to anything but channels. -/
  channels_only : peer.v2 = true → ∀ t ∈ topics, t.isChannel = true := by simp
  /-- Only the second protocol has presence. -/
  no_presence : peer.v2 = false → presence = [] := by simp
  /-- The buffer holds frames for the session only. -/
  buffer_reaches : ∀ f ∈ rewindBuffer, f.reaches peer = true := by simp

namespace Session

/-- Every frame the session was sent, oldest first. -/
def frames (s : Session) : List ServerFrame := s.written ++ s.outbound

def onChannel (s : Session) (channel : String) : Bool := s.topics.contains (.channel channel)

/-- The second `select` of `Send`: a full queue closes the session. -/
def enqueue (f : ServerFrame) (s : Session) : Session :=
  if s.outbound.length < outboundQueueSize then { s with outbound := s.outbound ++ [f] }
  else { s with done := true }

def shut (s : Session) : Session := { s with done := true }

/-- The writer takes a frame. -/
def write (s : Session) : Session :=
  { s with written := s.written ++ s.outbound.take 1, outbound := s.outbound.drop 1 }

/-- A frame that the session was selected for is sent. -/
def flush (n : Nat) (s : Session) : Session :=
  match s.selected[n]? with
  | none => s
  | some f =>
    let rest := { s with selected := s.selected.eraseIdx n }
    if s.done then rest else rest.enqueue f

/-- `Subscribe`, which the reader calls for the first protocol. -/
def subscribe (topics : List Topic) (s : Session) : Session :=
  if h : s.peer.v2 = false then
    { s with topics := s.topics ++ topics, channels_only := fun h' => absurd (h ▸ h') (by decide) }
  else s

variable (s : Session) (channels : List String)

theorem channels_only_append (h : s.peer.v2 = true) : ∀ t ∈ s.topics ++ channels.map .channel, t.isChannel = true := by
  intro t ht
  rcases List.mem_append.mp ht with ht | ht
  · exact s.channels_only h t ht
  · obtain ⟨c, -, rfl⟩ := List.mem_map.mp ht
    rfl

/-- The section of `subscribeV2` after its checks. -/
def subscribeV2 (channels : List String) (rewind : Bool) (s : Session) : Session :=
  { s with
    topics := s.topics ++ channels.map .channel
    rewinding := if rewind then s.rewinding ++ channels else s.rewinding
    channels_only := s.channels_only_append channels }

def unsubscribeV2 (channels : List String) (s : Session) : Session :=
  { s with
    topics := s.topics.filter fun t => !(channels.map Topic.channel).contains t
    channels_only := fun h t ht => s.channels_only h t (List.mem_of_mem_filter ht) }

/-- `source.presence[channel] = data`, for the second protocol. -/
def setPresence (channel data : String) (s : Session) : Session :=
  if h : s.peer.v2 = true then
    { s with
      presence := (channel, data) :: s.presence.filter (·.1 ≠ channel)
      no_presence := fun h' => absurd (h ▸ h') (by decide) }
  else s

def present (channel : String) (s : Session) : Bool := s.presence.any (·.1 = channel)

/-! ### Rewinds -/

/-- The map loses a number of its entries, of which the scheduler picks the first ones. -/
def evict : Nat → List String → List (String × Int) → List String × List (String × Int)
  | 0, victims, seen => (victims, seen)
  | n + 1, [], seen => evict n [] seen.tail
  | n + 1, v :: victims, seen =>
    evict n victims (if seen.any (·.1 = v) then seen.filter (·.1 ≠ v) else seen.tail)

/-- `MaxRewindChannels*MaxHistoryItems`. -/
def rewindSeenLimit : Nat := maxRewindChannels * maxHistoryItems

/-- The loop over `seen` in `FinishRewindV2`. -/
def remember (expires : Int) : List String → List String → List (String × Int) → List (String × Int)
  | [], _, seen => seen
  | id :: ids, victims, seen =>
    let r := evict (seen.length + 1 - rewindSeenLimit) victims seen
    remember expires ids r.1 ((id, expires) :: r.2.filter (·.1 ≠ id))

/-- The section of `FinishRewindV2`. It ends the rewind when nothing is buffered. -/
def finishRewind (ids : List String) (now : Int) (victims : List String) (s : Session) : Session :=
  if s.rewindBuffer.isEmpty then
    { s with
      rewindSeen := remember (now + minute) ids victims (s.rewindSeen.filter fun e => now < e.2)
      rewinding := [] }
  else { s with rewindBuffer := [], buffer_reaches := by simp }

/-- What `DeliverV2` does with a session that should get the frame. -/
inductive Verdict where
  | duplicate
  | buffered
  | overflow
  | target
  deriving DecidableEq

def verdict (f : ChannelFrame) (now : Int) (s : Session) : Verdict :=
  if f.messageId ≠ "" && s.rewindSeen.any (fun e => e.1 = f.messageId && decide (now < e.2)) then .duplicate
  else if s.rewinding.contains f.channel then
    if outboundQueueSize ≤ s.rewindBuffer.length then .overflow else .buffered
  else .target

/-- An entry for the frame that has expired is deleted. -/
def forget (f : ChannelFrame) (seen : List (String × Int)) : List (String × Int) :=
  if f.messageId = "" then seen else seen.filter (·.1 ≠ f.messageId)

theorem buffer_reaches_append {f : ChannelFrame} (h : f.reaches s.peer = true) :
    ∀ g ∈ s.rewindBuffer ++ [f], g.reaches s.peer = true :=
  Table.forall_mem_concat s.buffer_reaches h

/-- The session after a frame for it was offered to it. -/
def offer (f : ChannelFrame) (now : Int) (s : Session) : Session :=
  if h : f.reaches s.peer = true then
    match s.verdict f now with
    | .duplicate => s
    | .buffered =>
      { s with
        rewindSeen := forget f s.rewindSeen
        rewindBuffer := s.rewindBuffer ++ [f]
        buffer_reaches := s.buffer_reaches_append h }
    | .overflow | .target => { s with rewindSeen := forget f s.rewindSeen }
  else s

/-! ### Who a session belongs to never changes -/

@[simp] theorem enqueue_peer (f : ServerFrame) (s : Session) : (s.enqueue f).peer = s.peer := by
  unfold enqueue
  split <;> rfl

@[simp] theorem shut_peer : s.shut.peer = s.peer := rfl

@[simp] theorem write_peer : s.write.peer = s.peer := rfl

@[simp] theorem flush_peer (n : Nat) (s : Session) : (s.flush n).peer = s.peer := by
  unfold flush
  split
  · rfl
  split
  · rfl
  · exact enqueue_peer _ _

@[simp] theorem subscribe_peer (topics : List Topic) (s : Session) : (s.subscribe topics).peer = s.peer := by
  unfold subscribe
  split <;> rfl

@[simp] theorem subscribeV2_peer (rewind : Bool) (s : Session) : (s.subscribeV2 channels rewind).peer = s.peer := rfl

@[simp] theorem unsubscribeV2_peer (s : Session) : (s.unsubscribeV2 channels).peer = s.peer := rfl

@[simp] theorem setPresence_peer (channel data : String) (s : Session) :
    (s.setPresence channel data).peer = s.peer := by
  unfold setPresence
  split <;> rfl

@[simp] theorem finishRewind_peer (ids : List String) (now : Int) (victims : List String) (s : Session) :
    (s.finishRewind ids now victims).peer = s.peer := by
  unfold finishRewind
  split <;> rfl

@[simp] theorem offer_peer (f : ChannelFrame) (now : Int) (s : Session) : (s.offer f now).peer = s.peer := by
  unfold offer
  split
  · split <;> rfl
  · rfl

end Session

/-- The loop of `DeliverV2` does not skip the session. -/
def Session.takes (gateway : String) (app : AppId) (f : ChannelFrame) (s : Session) : Bool :=
  s.active && s.peer.gateway = gateway && s.peer.v2 && s.peer.appId = app && s.onChannel f.channel && f.reaches s.peer

/-! ## What gateways share -/

structure World where
  /-- The gateways whose hub is closed. -/
  closed : List String := []
  sessions : List Session := []
  redis : String → RedisValue := fun _ => .missing
  /-- What was published on the broker for an application. -/
  published : AppId → List ChannelFrame := fun _ => []

namespace World

def session? (w : World) (p : Peer) : Option Session := w.sessions.find? (·.peer = p)

def update (w : World) (p : Peer) (f : Session → Session) : World :=
  { w with sessions := updateWhere (·.peer = p) f w.sessions }

/-- `_, active := h.sessions[s]`. -/
def isActive (w : World) (p : Peer) : Bool := (w.session? p).any (·.active)

/-- The sessions of an application that are present in a channel, as a gateway counts them. -/
def occupancy (w : World) (gateway : String) (app : AppId) (channel : String) : Nat :=
  w.sessions.countP fun s => s.active && s.peer.gateway = gateway && s.peer.appId = app && s.present channel

end World

/-! ## Statements -/

inductive Statement where
  /-- A new uuid and `time.Now()`. -/
  | stamp
  | isActive (p : Peer)
  /-- The first `select` of `Send`. -/
  | isDone (p : Peer)
  /-- The second `select` of `Send`. -/
  | enqueue (p : Peer) (frame : ServerFrame)
  /-- `close(s.done)`. -/
  | shut (p : Peer)
  /-- The section of `Subscribe`. -/
  | subscribe (p : Peer) (topics : List Topic)
  /-- The section of `subscribeV2`. -/
  | subscribeV2 (p : Peer) (channels : List String) (rewind : Bool)
  /-- The section of `UnsubscribeV2`. -/
  | unsubscribeV2 (p : Peer) (channels : List String)
  /-- An update of the connection registry, which may fail. -/
  | registry (p : Peer)
  /-- The section of `FinishRewindV2`. -/
  | finishRewind (p : Peer) (seen : List String)
  /-- The section of `DeliverV2`. -/
  | deliver (gateway : String) (app : AppId) (frame : ChannelFrame)
  /-- The section of `UpdatePresence`. -/
  | setPresence (p : Peer) (channel data : String)
  /-- The presence of an active session, read under the lock. -/
  | presenceOf (p : Peer)
  /-- The section of `Close`. -/
  | remove (p : Peer)
  /-- Whether `ReconcilePresence` finds the channel. -/
  | isSubscribed (gateway : String) (app : AppId) (channel : String)
  | resolveFile (app : AppId) (fileId channel : String)
  | redis (op : RedisOp)
  /-- A frame goes out on the subject of its application. -/
  | publish (app : AppId) (frame : ChannelFrame)
  /-- A message is received on the subject of an application. -/
  | receive (app : AppId) (n : Nat)
  /-- `publish` selects its targets; `none` stands for every application. -/
  | select (gateway : String) (app : Option AppId) (topic : Topic) (frame : ServerFrame)

/-- `uuid.NewString`: digits, letters and dashes. -/
structure Uuid where
  text : String
  plain : text.toList.all (fun c => c.isAlphanum || c = '-') = true
  deriving DecidableEq

inductive FileError where
  | notFound
  | conflict
  | unavailable
  deriving DecidableEq

inductive Reply where
  | stamp (uuid : Uuid) (now : Int)
  | flag (value : Bool)
  | checked (e : Option ProtocolError)
  | delivery (targets overflow : List Peer) (buffered : Nat)
  | drained (frames : List ChannelFrame)
  | presence (result : Except ProtocolError (Bool × Nat))
  | present (presence : Option (List (String × String)))
  | leaves (channels : List (String × Nat))
  | file (result : Except FileError RealtimeFile)
  | redis (reply : RedisReply)
  | message (frame : Option ChannelFrame)
  | done

/-- What the scheduler chooses for a statement. -/
structure Choice where
  clock : Int := 0
  uuid : Uuid := ⟨"", Eq.refl true⟩
  /-- The clock of Redis, for the ids of its streams. -/
  ticks : Nat := 0
  fate : Fate := .answered
  registryFails : Bool := false
  file : Except FileError RealtimeFile := .error .notFound
  /-- The order in which a map is walked. -/
  rank : Peer → Nat := fun _ => 0
  /-- The entries a full map loses. -/
  victims : List String := []

def connectionClosed : ProtocolError := ⟨"connection_closed", "Connection is closed."⟩

/-- The section of `subscribeV2`. -/
def subscribeSection (w : World) (p : Peer) (channels : List String) (rewind : Bool) : Option ProtocolError × World :=
  if !w.isActive p || !p.v2 then (some connectionClosed, w)
  else if !channels.all (p.allowed · .subscribe) then
    (some ⟨"forbidden", "The token does not allow subscribing to this channel."⟩, w)
  else (none, w.update p (·.subscribeV2 channels rewind))

/-- The section of `UnsubscribeV2`. -/
def unsubscribeSection (w : World) (p : Peer) (channels : List String) : Option ProtocolError × World :=
  if !w.isActive p || !p.v2 then (some connectionClosed, w)
  else if !channels.all (p.allowed · .subscribe) then
    (some ⟨"forbidden", "The token does not allow this channel."⟩, w)
  else (none, w.update p (·.unsubscribeV2 channels))

/-- The section of `FinishRewindV2`; no frames mean that it returns. -/
def finishSection (w : World) (c : Choice) (p : Peer) (seen : List String) : List ChannelFrame × World :=
  if !w.isActive p then ([], w)
  else (((w.session? p).map (·.rewindBuffer)).getD [], w.update p (·.finishRewind seen c.clock c.victims))

/-- The peers of the sessions that take a frame with a verdict, in the order of the map. -/
def verdicts (w : World) (c : Choice) (gateway : String) (app : AppId) (f : ChannelFrame)
    (v : Session.Verdict) : List Peer :=
  ((w.sessions.filter fun s => s.takes gateway app f && s.verdict f c.clock = v).map (·.peer)).insertionSort
    fun a b => c.rank a ≤ c.rank b

/-- The section of `DeliverV2`. -/
def deliverSection (w : World) (c : Choice) (gateway : String) (app : AppId) (f : ChannelFrame) : Reply × World :=
  (.delivery (verdicts w c gateway app f .target) (verdicts w c gateway app f .overflow)
      ((verdicts w c gateway app f .buffered).length + (verdicts w c gateway app f .overflow).length),
    { w with sessions := updateWhere (·.takes gateway app f) (·.offer f c.clock) w.sessions })

/-- The section of `UpdatePresence`: whether the session was present before, and the occupancy. -/
def presenceSection (w : World) (p : Peer) (channel data : String) : Except ProtocolError (Bool × Nat) × World :=
  match w.session? p with
  | none => (.error connectionClosed, w)
  | some s =>
    if !s.active || !p.v2 then (.error connectionClosed, w)
    else if !s.onChannel channel then
      (.error ⟨"not_subscribed", "Subscribe to the channel before updating presence."⟩, w)
    else
      let w' := w.update p (·.setPresence channel data)
      (.ok (s.present channel, w'.occupancy p.gateway p.appId channel), w')

/-- The section of `Close`: the channels the session leaves, with the occupancy after it. -/
def removeSection (w : World) (p : Peer) : List (String × Nat) × World :=
  match w.session? p with
  | none => ([], w)
  | some s =>
    if !s.active then ([], w)
    else
      let w' := w.update p fun s => { s with active := false }
      (s.presence.map fun e => (e.1, w'.occupancy p.gateway p.appId e.1), w')

/-- The session is selected by `publish`. -/
def Session.selectedBy (gateway : String) (app : Option AppId) (topic : Topic) (s : Session) : Bool :=
  s.active && s.peer.gateway = gateway && app.all (· = s.peer.appId) && s.topics.contains topic

def Statement.run (E : Env) (w : World) (c : Choice) : Statement → Reply × World
  | .stamp => (.stamp c.uuid c.clock, w)
  | .isActive p => (.flag (w.isActive p), w)
  | .isDone p => (.flag ((w.session? p).all (·.done)), w)
  | .enqueue p frame =>
    (.flag ((w.session? p).any fun s => s.outbound.length < outboundQueueSize), w.update p (·.enqueue frame))
  | .shut p => (.done, w.update p (·.shut))
  | .subscribe p topics =>
    if !w.isActive p then (.checked (some connectionClosed), w)
    else (.checked none, w.update p (·.subscribe topics))
  | .subscribeV2 p channels rewind => (subscribeSection w p channels rewind).map .checked id
  | .unsubscribeV2 p channels => (unsubscribeSection w p channels).map .checked id
  | .registry _ => (.flag (!c.registryFails), w)
  | .finishRewind p seen => (finishSection w c p seen).map .drained id
  | .deliver gateway app frame => deliverSection w c gateway app frame
  | .setPresence p channel data => (presenceSection w p channel data).map .presence id
  | .presenceOf p => (.present (((w.session? p).filter (·.active)).map (·.presence)), w)
  | .remove p => (removeSection w p).map .leaves id
  | .isSubscribed gateway app channel =>
    (.flag (w.sessions.any fun s =>
      s.active && s.peer.gateway = gateway && s.peer.v2 && s.peer.appId = app && s.onChannel channel), w)
  | .resolveFile _ _ _ => (.file c.file, w)
  | .redis op =>
    let r := op.run E.admits c.clock c.ticks w.redis
    match c.fate with
    | .answered => (.redis r.1, { w with redis := r.2 })
    | .refused => (.redis .failed, w)
    | .lost => (.redis .failed, { w with redis := r.2 })
  | .publish app frame =>
    let published := Function.update w.published app (w.published app ++ [frame])
    match c.fate with
    | .answered => (.flag true, { w with published })
    | .refused => (.flag false, w)
    | .lost => (.flag false, { w with published })
  | .receive app n => (.message (w.published app)[n]?, w)
  | .select gateway app topic frame =>
    (.done, { w with
      sessions := updateWhere (·.selectedBy gateway app topic) (fun s => { s with selected := s.selected ++ [frame] })
        w.sessions })

/-- What happens outside of all calls. -/
inductive Event where
  /-- `register`. -/
  | connect (p : Peer)
  /-- The writer of a session takes a frame from its queue. -/
  | write (p : Peer)
  /-- A session is sent one of the frames that `publish` selected it for. -/
  | flush (p : Peer) (n : Nat)
  /-- A key of Redis expires, or is lost. -/
  | expire (key : String)
  /-- The hub of a gateway closes. -/
  | close (gateway : String)

def Event.run (w : World) : Event → World
  | .connect p =>
    if w.closed.contains p.gateway || p.v2 && p.clientId = "" || w.sessions.any (·.peer = p) then w
    else { w with sessions := w.sessions ++ [{ peer := p }] }
  | .write p => w.update p (·.write)
  | .flush p n => w.update p (·.flush n)
  | .expire key => { w with redis := Function.update w.redis key .missing }
  | .close gateway =>
    { w with
      closed := gateway :: w.closed
      sessions := updateWhere (·.peer.gateway = gateway) (·.shut) w.sessions }

inductive Input where
  | statement (s : Statement) (c : Choice)
  | event (e : Event)

def hubMachine (E : Env) : Mealy World Input Reply where
  exec w
    | .statement s c => s.run E w c
    | .event e => (.done, e.run w)

end RelayHub.Realtime
