import RelayHub.Realtime.Calls

/-! # RelayHub realtime — the scope of calls

Every call makes its statements on behalf of one application and protocol and asks Redis for its own
operations. The channel frames it passes on are those it was given by other statements, those that its client
has asked it to publish, and frames that are no messages; a session is sent the messages that are for it
(`Call.makes`). The exceptions are `PublishChannel` and `publish` for a topic, which select sessions by topic
alone. -/

open List

namespace RelayHub.Realtime

/-! ## Operations on Redis -/

/-- The operations that Redis is asked for when an application publishes, updates presence or reads history. -/
inductive RedisOp.Store (E : Env) (a : AppId) : RedisOp → Prop where
  | rate {key dimension window : String} (limit : Nat) (h : E.keys.rateLimit a dimension window = some key) :
      Store E a (.tokenBucket key limit)
  | append {key channel : String} {maxLen : Nat} (frame : ChannelFrame) (h : historyKey E maxLen a channel = some key) :
      Store E a (.appendHistory key maxLen frame)
  | read {key channel : String} {maxLen : Nat} (before : Option Nat) (count : Nat)
      (h : historyKey E maxLen a channel = some key) : Store E a (.readHistory key before count)
  | upsert {p : Peer} {channel memberKey indexKey : String} (ttl : Int) (hp : p.appId = a)
      (h : presenceKeys E p channel = some (memberKey, indexKey)) :
      Store E a (.upsertPresence memberKey indexKey p.id ttl)
  | delete {p : Peer} {channel memberKey indexKey : String} (hp : p.appId = a)
      (h : presenceKeys E p channel = some (memberKey, indexKey)) : Store E a (.deletePresence memberKey indexKey p.id)
  | expire {key channel : String} (limit : Nat) (h : E.keys.realtimePresenceIndex a channel = some key) :
      Store E a (.expirePresence key limit)

/-- A message that is published on a channel is recorded. -/
def RedisOp.Records (E : Env) (a : AppId) (channel : String) (op : RedisOp) : Prop :=
  ∃ (maxActions : Nat) (key : String) (uuid : Uuid) (encrypted : Bool), E.actionStore = some maxActions ∧
    actionKey E maxActions a channel ("msg_" ++ uuid.text) = some key ∧ op = .recordMessage key encrypted

/-- The operations that Redis is asked for by a frame of a client. -/
def ClientFrame.Ops (E : Env) (p : Peer) : ClientFrame → RedisOp → Prop
  | .channelPublish channel _ _ _, op | .filePublish channel _ _ _ _, op =>
    op.Store E p.appId ∨ op.Records E p.appId channel
  | .channelPublishBatch items, op => op.Store E p.appId ∨ ∃ item ∈ items, op.Records E p.appId item.channel
  | .messageActionPut channel messageId type idempotencyKey data, op =>
    ∃ maxActions key type' uuid now, E.actionStore = some maxActions ∧ type = some type' ∧
      actionKey E maxActions p.appId channel messageId = some key ∧
      op = .putAction key maxActions (newAction p channel messageId type' idempotencyKey data uuid now)
  | .messageActionsGet channel messageId, op =>
    ∃ maxActions key, E.actionStore = some maxActions ∧ actionKey E maxActions p.appId channel messageId = some key ∧
      op = .listActions key
  | .messageActionRemove channel messageId actionId _, op =>
    ∃ maxActions key, E.actionStore = some maxActions ∧ actionKey E maxActions p.appId channel messageId = some key ∧
      op = .removeAction key actionId p.clientId
  | _, op => op.Store E p.appId

/-! ## Frames -/

/-- The frame is for a connection: a channel message with an audience is for this one, and a page has
messages for everybody; `F` holds of all of them. -/
def ServerFrame.Addressed (F : ChannelFrame → Prop) (p : Peer) : ServerFrame → Prop
  | .channel f => F f ∧ (f.audience.isSome = true → f.reaches p = true)
  | .history _ items _ _ => ∀ f ∈ items, F f ∧ f.type = .channelMessage ∧ f.audience = some .all
  | _ => True

/-- The statement passes on frames that meet `F`, and sends a session what is for it. -/
def Statement.Carries (F : ChannelFrame → Prop) : Statement → Prop
  | .enqueue p f => f.Addressed F p
  | .deliver _ _ f | .publish _ f | .redis (.appendHistory _ _ f) => F f
  | .select _ _ _ f => ∀ p, f.Addressed F p
  | _ => True

/-- The frames in the reply meet `F`. -/
def Reply.Carries (F : ChannelFrame → Prop) : Reply → Prop
  | .message (some f) => F f
  | .drained frames => ∀ f ∈ frames, F f
  | .redis (.entries found) => ∀ e ∈ found, F e.2
  | _ => True

/-- The statement is made on behalf of an application, by a session of a protocol or by a gateway for the
second one; `R` are its operations on Redis. -/
def Statement.On (a : AppId) (v2 : Bool) (R : RedisOp → Prop) : Statement → Prop
  | .stamp => True
  | .isActive p | .isDone p | .enqueue p _ | .shut p | .subscribe p _ | .subscribeV2 p _ _ | .unsubscribeV2 p _
  | .registry p | .finishRewind p _ | .setPresence p _ _ | .presenceOf p | .remove p => p.appId = a ∧ p.v2 = v2
  | .deliver _ app _ | .isSubscribed _ app _ | .publish app _ | .receive app _ | .resolveFile app _ _ =>
    app = a ∧ v2 = true
  | .redis op => R op ∧ v2 = true
  | .select _ _ _ _ => False

/-! ## Scopes -/

/-- What a call keeps to: an application and a protocol, operations on Redis, the choices that are made for it and
the frames it may pass on. -/
structure Scope where
  env : Env
  app : AppId
  v2 : Bool
  ops : RedisOp → Prop
  chosen : Choice → Prop
  frames : ChannelFrame → Prop
  /-- Frames that are no messages may be passed on. -/
  free : ∀ f, f.type ≠ .channelMessage → frames f
  /-- Messages in a page have a cursor. -/
  paged : ∀ f cursor, frames f → frames { f with cursor }

namespace Scope

/-- The replies of statements: other calls pass on such frames only. -/
def Answers (S : Scope) (s : Statement) (r : Reply) : Prop :=
  r.Carries S.frames ∧ ∃ w c, S.chosen c ∧ r = (s.run S.env w c).1

def Permits (S : Scope) (s : Statement) : Prop := s.On S.app S.v2 S.ops ∧ s.Carries S.frames

/-- The call keeps to the scope, and its result meets `post`. -/
abbrev Holds (S : Scope) {α : Type} (post : α → Prop) (p : HubM α) : Prop := p.Performs S.Answers S.Permits post

/-- Whatever the call returns. -/
abbrev Accepts (S : Scope) {α : Type} (p : HubM α) : Prop := S.Holds (fun _ => True) p

variable {S : Scope} {s : Statement} {a : AppId} {p : Peer}

theorem perform (h : S.Permits s) : S.Holds (S.Answers s) (Program.perform s) := ⟨h, fun _ hr => hr⟩

theorem stamp : S.Holds (fun x => ∃ c, S.chosen c ∧ x = (c.uuid, c.clock)) stamp := by
  refine .bind (perform ⟨trivial, trivial⟩) ?_
  rintro _ ⟨-, w, c, hc, rfl⟩
  exact ⟨c, hc, rfl⟩

theorem flag (h : S.Permits s) : S.Accepts (flag s) := by
  refine .bind (perform h) fun r _ => ?_
  split <;> exact trivial

theorem checked (h : S.Permits s) : S.Accepts (checked s) := by
  refine .bind (perform h) fun r _ => ?_
  split <;> exact trivial

section Sessions

variable (hp : p.appId = S.app ∧ p.v2 = S.v2)

include hp

theorem shut : S.Accepts (shut p) := .bind (perform ⟨hp, trivial⟩) fun _ _ => trivial

/-- `Send`, of a frame that is for the session. -/
theorem send {f : ServerFrame} (hf : f.Addressed S.frames p) : S.Accepts (send p f) := by
  refine .bind (perform ⟨hp, trivial⟩) fun r _ => ?_
  split
  · exact flag ⟨hp, hf⟩
  · exact trivial

theorem sendTo {f : ServerFrame} (hf : f.Addressed S.frames p) : S.Accepts (sendTo p f) :=
  .bind (send hp hf) fun _ _ => trivial

theorem persistChannels : S.Accepts (persistChannels S.env p) := by
  refine .bind (flag ⟨hp, trivial⟩) fun active _ => ?_
  split
  · exact trivial
  split
  · exact trivial
  refine .bind (flag ⟨hp, trivial⟩) fun ok _ => ?_
  split
  · exact trivial
  · exact .bind (shut hp) fun _ _ => trivial

theorem subscribeV2 (channels : List String) (rewind : Bool) : S.Accepts (subscribeV2 S.env p channels rewind) := by
  unfold Realtime.subscribeV2
  split
  · exact trivial
  refine .bind (checked ⟨hp, trivial⟩) fun e _ => ?_
  split
  · exact trivial
  refine .bind (persistChannels hp) fun ok _ => ?_
  split <;> exact trivial

theorem unsubscribeV2 (channels : List String) : S.Accepts (unsubscribeV2 S.env p channels) := by
  unfold Realtime.unsubscribeV2
  split
  · exact trivial
  refine .bind (checked ⟨hp, trivial⟩) fun e _ => ?_
  split
  · exact trivial
  refine .bind (persistChannels hp) fun ok _ => ?_
  split <;> exact trivial

theorem validatePublishV2 (channel : String) : S.Accepts (validatePublishV2 p channel) := by
  unfold Realtime.validatePublishV2
  split
  · exact trivial
  refine .bind (flag ⟨hp, trivial⟩) fun active _ => ?_
  split <;> exact trivial

theorem validateActionSource (channel : String) : S.Accepts (validateActionSource p channel) := by
  unfold Realtime.validateActionSource
  split
  · exact trivial
  refine .bind (flag ⟨hp, trivial⟩) fun active _ => ?_
  split <;> exact trivial

end Sessions

/-! ## Stores and delivery -/

section Stores

variable (ha : a = S.app ∧ S.v2 = true) {maxActions : Nat} {channel messageId : String} {frame : ChannelFrame}

include ha

theorem redis {op : RedisOp} (hop : S.ops op) (hf : (Statement.redis op).Carries S.frames) :
    S.Holds (fun r => (Reply.redis r).Carries S.frames) (redis op) := by
  refine .bind (perform ⟨⟨hop, ha.2⟩, hf⟩) fun r hr => ?_
  split
  · exact hr.1
  · exact trivial

theorem putAction {action : RealtimeMessageAction}
    (hops : ∀ key, actionKey S.env maxActions a action.channel action.messageId = some key →
      S.ops (.putAction key maxActions action)) : S.Accepts (putAction S.env maxActions a action) := by
  unfold Realtime.putAction
  split
  · exact trivial
  next key hkey =>
  split
  · exact trivial
  refine .bind (redis ha (hops key hkey) trivial) fun r _ => ?_
  split <;> exact trivial

theorem listActions (hops : ∀ key, actionKey S.env maxActions a channel messageId = some key →
    S.ops (.listActions key)) :
    S.Accepts (listActions S.env maxActions a channel messageId) := by
  unfold Realtime.listActions
  split
  · exact trivial
  next key hkey =>
  refine .bind (redis ha (hops key hkey) trivial) fun r _ => ?_
  split
  · split <;> exact trivial
  · exact trivial

theorem removeAction {actionId clientId : String}
    (hops : ∀ key, actionKey S.env maxActions a channel messageId = some key →
      S.ops (.removeAction key actionId clientId)) :
    S.Accepts (removeAction S.env maxActions a channel messageId actionId clientId) := by
  unfold Realtime.removeAction
  split
  · exact trivial
  next key hkey =>
    refine .bind (redis ha (hops key hkey) trivial) fun r _ => ?_
    split <;> exact trivial

omit ha in
/-- `DeliverV2` finds sessions of its application that the frame is for. -/
theorem mem_verdicts {w : World} {c : Choice} {gateway : String} {v : Session.Verdict}
    (h : p ∈ verdicts w c gateway a frame v) : (p.appId = a ∧ p.v2 = true) ∧ frame.reaches p = true := by
  obtain ⟨s, hs, rfl⟩ := mem_map.mp ((perm_insertionSort _ _).mem_iff.mp h)
  have htakes := (mem_filter.mp hs).2
  simp only [Session.takes, Bool.and_eq_true, decide_eq_true_eq] at htakes
  exact ⟨⟨htakes.1.1.1.2, htakes.1.1.1.1.2⟩, htakes.1.2⟩

/-- `DeliverV2`. -/
theorem deliverV2 (gateway : String) (hf : S.frames frame) : S.Accepts (deliverV2 S.env gateway a frame) := by
  unfold Realtime.deliverV2
  split
  · exact trivial
  refine .bind (perform ⟨ha, hf⟩) ?_
  rintro _ ⟨-, w, c, -, rfl⟩
  have hpeer {v : Session.Verdict} {p : Peer} (h : p ∈ verdicts w c gateway a frame v) :
      p.appId = S.app ∧ p.v2 = S.v2 :=
    ⟨(mem_verdicts h).1.1.trans ha.1, (mem_verdicts h).1.2.trans ha.2.symm⟩
  refine .bind (Program.performs_forM fun p hmem => shut (hpeer hmem)) fun _ _ => ?_
  refine .bind (Program.performs_forM fun p hmem => ?_) fun _ _ => trivial
  exact sendTo (hpeer hmem) ⟨hf, fun _ => (mem_verdicts hmem).2⟩

theorem publishRealtimeV2 (hf : S.frames frame) : S.Accepts (publishRealtimeV2 S.env a frame) := by
  unfold Realtime.publishRealtimeV2
  split
  · exact trivial
  · exact flag ⟨ha, hf⟩

theorem dispatchV2 (gateway : String) (hf : S.frames frame) : S.Accepts (dispatchV2 S.env gateway a frame) := by
  unfold Realtime.dispatchV2
  split
  · exact publishRealtimeV2 ha hf
  · exact .bind (deliverV2 ha gateway hf) fun _ _ => trivial

theorem handleRealtimeV2 (gateway : String) (n : Nat) : S.Accepts (handleRealtimeV2 S.env gateway a n) := by
  refine .bind (perform ⟨ha, trivial⟩) fun r hr => ?_
  split
  · exact .bind (deliverV2 ha gateway hr.1) fun _ _ => trivial
  · exact trivial

variable (hops : ∀ op : RedisOp, op.Store S.env a → S.ops op)
include hops

theorem appendHistory (maxLen : Nat) (channel : String) (hf : S.frames frame) :
    S.Accepts (appendHistory S.env maxLen a channel frame) := by
  unfold Realtime.appendHistory
  split
  · exact trivial
  next hkey =>
    refine .bind (redis ha (hops _ (.append frame hkey)) hf) fun r _ => ?_
    split <;> exact trivial

theorem reconcilePresence (gateway channel : String) : S.Accepts (reconcilePresence S.env gateway a channel) := by
  refine .bind (flag ⟨ha, trivial⟩) fun found _ => ?_
  split
  · exact trivial
  split
  · exact trivial
  next hkey =>
  refine .bind (redis ha (hops _ (.expire _ hkey)) trivial) fun r _ => ?_
  split
  · refine Program.performs_forM fun connection _ => .bind stamp fun stamped _ => ?_
    exact .bind (dispatchV2 ha _ (S.free _ (by rintro ⟨⟩))) fun _ _ => trivial
  · exact trivial

end Stores

/-! ## Frames of clients -/

section Client

variable (hp : p.appId = S.app ∧ p.v2 = S.v2) (hv : S.v2 = true)
  (hops : ∀ op : RedisOp, op.Store S.env p.appId → S.ops op)

include hp hv

section Presence

include hops

theorem upsertPresence (channel : String) : S.Accepts (upsertPresence S.env p channel) := by
  unfold Realtime.upsertPresence
  split
  · exact trivial
  next hkeys =>
    refine .bind (redis ⟨hp.1, hv⟩ (hops _ (.upsert _ rfl hkeys)) trivial) fun r _ => ?_
    split <;> exact trivial

/-- What `Close` does for a channel of the session. -/
theorem leaveChannel (e : String × Nat) : S.Accepts (leaveChannel S.env p e) := by
  have hdelete : S.Accepts (leavePresence S.env p e.1) := by
    unfold Realtime.leavePresence
    split
    · unfold Realtime.deletePresence
      split
      · exact trivial
      next hkeys =>
        refine .bind (redis ⟨hp.1, hv⟩ (hops _ (.delete rfl hkeys)) trivial) fun r _ => ?_
        split <;> exact trivial
    · exact trivial
  refine .bind hdelete fun occupancy _ => .bind stamp fun stamped _ => ?_
  exact .bind (dispatchV2 ⟨hp.1, hv⟩ _ (S.free _ (by rintro ⟨⟩))) fun _ _ => trivial

theorem ratePublishV2 (channel : String) : S.Accepts (ratePublishV2 S.env p channel) := by
  have hgo : ∀ limits dimensions, S.Accepts (allowPublish.go S.env limits p dimensions) := by
    intro limits dimensions
    induction dimensions with
    | nil => exact trivial
    | cons d rest ih =>
      unfold allowPublish.go
      split
      · exact trivial
      next hkey =>
      refine .bind (redis ⟨hp.1, hv⟩ (hops _ (.rate _ hkey)) trivial) fun r _ => ?_
      split
      · exact ih
      · exact trivial
      · exact trivial
  unfold Realtime.ratePublishV2
  split
  · exact trivial
  refine .bind (hgo _ _) fun allowed _ => ?_
  split <;> exact trivial

theorem storeMessage (audience : Audience) {frame : ChannelFrame} (hf : S.frames frame)
    (hid : ∃ uuid : Uuid, frame.messageId = "msg_" ++ uuid.text)
    (hrecord : ∀ op : RedisOp, op.Records S.env p.appId frame.channel → S.ops op) :
    S.Accepts (storeMessage S.env p audience frame) := by
  have hrecorded : S.Accepts (recordForActions S.env p frame) := by
    obtain ⟨uuid, hid⟩ := hid
    unfold recordForActions
    split
    · exact trivial
    next maxActions hstore =>
    have hop : S.Accepts
        (recordMessage S.env maxActions p.appId frame.channel frame.messageId frame.encryption.isSome) := by
      unfold recordMessage
      split
      · exact trivial
      next key hkey =>
      rw [hid] at hkey
      refine .bind (redis ⟨hp.1, hv⟩ (hrecord _ ⟨_, key, uuid, _, hstore, hkey, rfl⟩) trivial) fun r _ => ?_
      split <;> exact trivial
    refine .bind hop fun recorded _ => ?_
    split <;> exact trivial
  have happend : S.Accepts (appendForHistory S.env p audience frame) := by
    unfold appendForHistory
    split
    · exact trivial
    split
    · refine .bind (appendHistory ⟨hp.1, hv⟩ hops _ _ hf) fun stored _ => ?_
      split <;> exact trivial
    · exact trivial
  refine .bind hrecorded fun e _ => ?_
  split
  · exact trivial
  · exact happend

theorem publishPreparedV2 {channel : String} (hrecord : ∀ op : RedisOp, op.Records S.env p.appId channel → S.ops op)
    {audience : Option Audience} {data : String} {encryption : Option EncryptionEnvelope}
    (hf : ∀ c, S.chosen c → S.frames (messageFrame p channel (audience.getD .all) data encryption none
      c.uuid c.clock)) :
    S.Accepts (publishPreparedV2 S.env p channel audience data encryption) := by
  refine .bind stamp ?_
  rintro _ ⟨c, hc, rfl⟩
  refine .bind (storeMessage hp hv hops _ (hf c hc) ⟨c.uuid, rfl⟩ hrecord) fun e _ => ?_
  split
  · exact trivial
  split
  · refine .bind (publishRealtimeV2 ⟨hp.1, hv⟩ (hf c hc)) fun ok _ => ?_
    split <;> exact trivial
  · refine .bind (deliverV2 ⟨hp.1, hv⟩ _ (hf c hc)) fun delivered _ => ?_
    split
    · split <;> exact trivial
    · split <;> exact trivial
    · exact trivial

end Presence

variable {channel messageId : String}

include hops in
theorem publishV2 (hrecord : ∀ op : RedisOp, op.Records S.env p.appId channel → S.ops op)
    {audience : Option Audience} {data : String} {encryption : Option EncryptionEnvelope}
    (hf : ∀ c, S.chosen c → S.frames (messageFrame p channel (audience.getD .all) data encryption none
      c.uuid c.clock)) :
    S.Accepts (publishV2 S.env p channel audience data encryption) := by
  unfold Realtime.publishV2
  refine .bind (validatePublishV2 hp channel) fun e _ => ?_
  split
  · exact trivial
  refine .bind (ratePublishV2 hp hv hops channel) fun e _ => ?_
  split
  · exact trivial
  refine .bind (publishPreparedV2 hp hv hops hrecord hf) fun r _ => ?_
  split <;> exact trivial

include hops in
theorem publishBatchV2 {items : List PublishItem}
    (hrecord : ∀ item ∈ items, ∀ op : RedisOp, op.Records S.env p.appId item.channel → S.ops op)
    (hf : ∀ item ∈ items, ∀ c, S.chosen c → S.frames
      (messageFrame p item.channel (item.audience.getD .all) item.data item.encryption none c.uuid c.clock)) :
    S.Holds (fun r => r.Addressed S.frames p) (publishBatchV2 S.env p items) := by
  have hpreflight : ∀ {check : PublishItem → HubM (Option ProtocolError)},
      (∀ item, S.Accepts (check item)) → S.Accepts (preflight check items) := by
    intro check hcheck
    clear hrecord hf
    induction items with
    | nil => exact trivial
    | cons item rest ih =>
      unfold preflight
      exact .bind (hcheck item) fun _ _ => .bind ih fun _ _ => trivial
  have hitems : S.Accepts (publishItems S.env p items) := by
    clear hpreflight
    induction items with
    | nil => exact trivial
    | cons item rest ih =>
      refine .bind (publishPreparedV2 hp hv hops (hrecord item mem_cons_self) (hf item mem_cons_self)) fun r _ => ?_
      refine .bind (ih (fun x hx => hrecord x (mem_cons_of_mem _ hx)) fun x hx => hf x (mem_cons_of_mem _ hx))
        fun outcomes _ => ?_
      split <;> exact trivial
  unfold Realtime.publishBatchV2
  refine .bind (hpreflight fun item => validatePublishV2 hp item.channel) fun codes _ => ?_
  split
  · exact trivial
  refine .bind (hpreflight fun item => ratePublishV2 hp hv hops item.channel) fun codes _ => ?_
  split
  · exact trivial
  · exact .bind hitems fun _ _ => trivial

include hops in
theorem publishFileV2 (hrecord : ∀ op : RedisOp, op.Records S.env p.appId channel → S.ops op) (fileId : String)
    {audience : Option Audience}
    (hf : ∀ c c' file, S.chosen c → S.chosen c' → c'.file = .ok file →
      S.frames (messageFrame p channel (audience.getD .all) "" none (some file) c.uuid c.clock)) :
    S.Accepts (publishFileV2 S.env p channel fileId audience) := by
  unfold Realtime.publishFileV2
  split
  · exact trivial
  refine .bind (flag ⟨hp, trivial⟩) fun active _ => ?_
  split
  · exact trivial
  split
  · exact trivial
  refine .bind (ratePublishV2 hp hv hops channel) fun e _ => ?_
  split
  · exact trivial
  refine .bind (perform ⟨⟨hp.1, hv⟩, trivial⟩) ?_
  rintro _ ⟨-, w, c', hc', rfl⟩
  split
  next file hfile =>
    refine .bind stamp ?_
    rintro _ ⟨c, hc, rfl⟩
    have hframe := hf c c' file hc hc' (Reply.file.inj hfile)
    refine .bind (storeMessage hp hv hops _ hframe ⟨c.uuid, rfl⟩ hrecord) fun e _ => ?_
    split
    · exact trivial
    refine .bind (dispatchV2 ⟨hp.1, hv⟩ _ hframe) fun ok _ => ?_
    split <;> exact trivial
  · exact trivial
  · exact trivial
  · exact trivial

theorem putActionV2 {type : ActionType} {idempotencyKey data : String}
    (hput : ∀ maxActions key uuid now, S.env.actionStore = some maxActions →
      actionKey S.env maxActions p.appId channel messageId = some key →
        S.ops (.putAction key maxActions (newAction p channel messageId type idempotencyKey data uuid now))) :
    S.Accepts (putActionV2 S.env p channel messageId type idempotencyKey data) := by
  refine .bind (validateActionSource hp channel) fun e _ => ?_
  split
  · exact trivial
  split
  · exact trivial
  next hstore =>
  refine .bind stamp fun stamped _ => ?_
  refine .bind (putAction ⟨hp.1, hv⟩ fun key hkey => hput _ key stamped.1 stamped.2 hstore hkey) fun stored _ => ?_
  split
  · exact trivial
  refine .bind (dispatchV2 ⟨hp.1, hv⟩ _ (S.free _ (by rintro ⟨⟩))) fun ok _ => ?_
  split <;> exact trivial

theorem listActionsV2 (hlist : ∀ maxActions key, S.env.actionStore = some maxActions →
      actionKey S.env maxActions p.appId channel messageId = some key → S.ops (.listActions key)) :
    S.Holds (fun r => ∀ f, r = .ok f → f.Addressed S.frames p) (listActionsV2 S.env p channel messageId) := by
  refine .bind (validateActionSource hp channel) fun e _ => ?_
  split
  · exact fun _ => nofun
  split
  · exact fun _ => nofun
  next hstore =>
  refine .bind (listActions ⟨hp.1, hv⟩ fun key hkey => hlist _ key hstore hkey) fun actions _ => ?_
  split
  · exact fun _ => nofun
  · rintro f ⟨⟩
    exact trivial

theorem removeActionV2 {actionId : String} (hremove : ∀ maxActions key, S.env.actionStore = some maxActions →
      actionKey S.env maxActions p.appId channel messageId = some key → S.ops (.removeAction key actionId p.clientId)) :
    S.Accepts (removeActionV2 S.env p channel messageId actionId) := by
  refine .bind (validateActionSource hp channel) fun e _ => ?_
  split
  · exact trivial
  split
  · exact trivial
  next hstore =>
  refine .bind (removeAction ⟨hp.1, hv⟩ fun key hkey => hremove _ key hstore hkey) fun removed _ => ?_
  split
  · exact trivial
  refine .bind (dispatchV2 ⟨hp.1, hv⟩ _ (S.free _ (by rintro ⟨⟩))) fun ok _ => ?_
  split <;> exact trivial

include hops in
theorem updatePresence (channel data : String) : S.Accepts (updatePresence S.env p channel data) := by
  have hstore : ∀ joined occupancy, S.Accepts (storePresence S.env p channel joined occupancy) := by
    intro joined occupancy
    unfold storePresence
    split
    · exact trivial
    refine .bind (upsertPresence hp hv hops channel) fun stored _ => ?_
    split
    · exact trivial
    · exact .bind (shut hp) fun _ _ => trivial
  unfold Realtime.updatePresence
  split
  · exact trivial
  refine .bind (perform ⟨hp, trivial⟩) fun r _ => ?_
  split
  · exact trivial
  · refine .bind (hstore _ _) fun stored _ => ?_
    split
    · exact trivial
    next joined _ =>
    refine .bind stamp fun stamped _ => ?_
    refine .bind (dispatchV2 ⟨hp.1, hv⟩ _ (S.free _ ?_)) fun ok _ => ?_
    · cases joined <;> exact nofun
    · split <;> exact trivial
  · exact trivial

include hops in
theorem refreshRegistry : S.Accepts (refreshRegistry S.env p) := by
  have hpresence : ∀ presence, S.Accepts (refreshPresence S.env p presence) := by
    intro presence
    induction presence with
    | nil => exact trivial
    | cons e rest ih =>
      unfold refreshPresence
      refine .bind (upsertPresence hp hv hops e.1) fun stored _ => ?_
      split
      · exact ih
      · exact shut hp
  unfold Realtime.refreshRegistry
  refine .bind (perform ⟨hp, trivial⟩) fun r _ => ?_
  split
  · refine .bind (flag ⟨hp, trivial⟩) fun ok _ => ?_
    split
    · split
      · exact hpresence _
      · exact trivial
    · exact shut hp
  · exact trivial

/-! ### History and rewinds -/

include hops in
theorem readHistory (maxLen : Nat) (channel : String) (r : HistoryRequest) :
    S.Holds (fun x => ∀ y, x = .ok y → ∀ e ∈ y.1, S.frames e.2) (readHistory S.env maxLen p.appId channel r) := by
  unfold Realtime.readHistory
  split
  next key before hkey _ =>
    split
    · exact fun _ => nofun
    split
    · exact fun _ => nofun
    refine .bind (redis ⟨hp.1, hv⟩ (hops _ (.read _ _ hkey)) trivial) fun reply hreply => ?_
    split
    next found =>
      rintro _ ⟨⟩ e he
      obtain ⟨x, hx, rfl⟩ := mem_map.mp (mem_reverse.mp he)
      exact hreply x (mem_of_mem_take hx)
    · exact fun _ => nofun
  · exact fun _ => nofun

include hops in
/-- A page has messages for everybody. -/
theorem historyV2 (channel : String) (r : HistoryRequest) :
    S.Holds (fun x => ∀ page, x = .ok page → page.Addressed S.frames p) (historyV2 S.env p channel r) := by
  unfold Realtime.historyV2
  split
  · exact fun _ => nofun
  split
  · exact fun _ => nofun
  refine .bind (flag ⟨hp, trivial⟩) fun active _ => ?_
  split
  · exact fun _ => nofun
  unfold historyForApp
  split
  · exact fun _ => nofun
  split
  · exact fun _ => nofun
  next maxLen _ =>
  refine .bind (readHistory hp hv hops maxLen channel r) fun x hx => ?_
  split
  · exact fun _ => nofun
  · exact fun _ => nofun
  next entries next =>
  split
  next hall =>
    rintro _ ⟨⟩ f hf
    obtain ⟨e, he, rfl⟩ := mem_map.mp hf
    have hentry := all_eq_true.mp hall e he
    simp only [historical, Bool.and_eq_true, decide_eq_true_eq] at hentry
    exact ⟨S.paged _ _ (hx _ rfl e he), hentry.1.1.1.1, hentry.1.2⟩
  · exact fun _ => nofun

omit hv in
theorem sendBuffered (seen : List String) {frames : List ChannelFrame}
    (h : ∀ f ∈ frames, S.frames f ∧ f.reaches p = true) : S.Accepts (sendBuffered p seen frames) := by
  induction frames with
  | nil => exact trivial
  | cons f rest ih =>
    have ih := ih fun g hg => h g (mem_cons_of_mem _ hg)
    obtain ⟨hf, hreaches⟩ := h f mem_cons_self
    unfold Realtime.sendBuffered
    split
    · exact ih
    refine .bind (send hp ⟨hf, fun _ => hreaches⟩) fun sent _ => ?_
    split
    · exact ih
    · exact trivial

omit hp hv in
/-- The section of `FinishRewindV2` takes frames for the session from its buffer. -/
theorem reaches_of_drained {w : World} {c : Choice} {seen : List String} {f : ChannelFrame}
    (h : f ∈ (finishSection w c p seen).1) : f.reaches p = true := by
  unfold finishSection at h
  split at h
  · cases h
  cases hs : w.session? p with
  | none => simp [hs] at h
  | some s =>
    have hpeer : s.peer = p := by simpa using List.find?_some hs
    simp only [hs] at h
    exact hpeer ▸ s.buffer_reaches f h

omit hv in
theorem finishRewindV2 (seen : List String) (rounds : Nat) : S.Accepts (finishRewindV2 p seen rounds) := by
  induction rounds with
  | zero => exact trivial
  | succ rounds ih =>
    unfold Realtime.finishRewindV2
    refine .bind (perform ⟨hp, trivial⟩) ?_
    rintro _ ⟨hcarries, w, c, -, rfl⟩
    split
    next f rest hdrained =>
      have hframes : (finishSection w c p seen).1 = f :: rest := Reply.drained.inj hdrained
      refine .bind (sendBuffered hp seen fun g hg => ⟨?_, reaches_of_drained (hframes ▸ hg)⟩) fun sent _ => ?_
      · exact hcarries g (hframes ▸ hg)
      · split
        · exact ih
        · exact trivial
    · exact trivial

include hops in
theorem readSubscribe (channels : List String) (rewind : Option HistoryRequest) (rounds : Nat) :
    S.Accepts (readSubscribe S.env p channels rewind rounds) := by
  have hpages : ∀ r pages rest, S.Accepts (rewindPages S.env p r pages rest) := by
    intro r pages rest
    induction rest generalizing pages with
    | nil => exact trivial
    | cons channel rest ih =>
      unfold rewindPages
      refine .bind (historyV2 hp hv hops channel r) fun page hpage => ?_
      split
      · exact .bind (sendTo hp trivial) fun _ _ => trivial
      next page => exact .bind (sendTo hp (hpage page rfl)) fun _ _ => ih _
  unfold Realtime.readSubscribe
  refine .bind (subscribeV2 hp channels _) fun e _ => ?_
  split
  · exact sendTo hp trivial
  split
  · exact sendTo hp trivial
  refine .bind (hpages _ _ _) fun pages _ => ?_
  exact .bind (sendTo hp trivial) fun _ _ => finishRewindV2 hp _ _

end Client

end Scope

/-! ## Calls -/

/-- The application that makes a call; for a notification, the one that published it. -/
def Call.app : Call → AppId
  | .frame p _ _ | .topics p _ | .close p | .refresh p => p.appId
  | .receive _ app _ | .reconcile _ app _ => app
  | .publishChannel _ publisher _ _ => publisher
  | .publishTopic _ source _ _ _ => source

/-- The protocol of a call. -/
def Call.v2 : Call → Bool
  | .frame p _ _ | .topics p _ | .close p | .refresh p => p.v2
  | _ => true

/-- `PublishChannel` and `publish` for a topic, which only select sessions. -/
def Call.isNotice : Call → Bool
  | .publishChannel _ _ _ _ | .publishTopic _ _ _ _ _ => true
  | _ => false

/-- The operations that Redis is asked for in a call. -/
def Call.Ops (E : Env) : Call → RedisOp → Prop
  | .frame p f _ => f.Ops E p
  | other => RedisOp.Store E other.app

/-- The statements that a call makes. -/
def Call.Makes (E : Env) (call : Call) (st : Statement) : Prop :=
  match call with
  | .publishChannel _ _ _ _ => ∃ gateway channel frame, st = .select gateway none (.channel channel) frame
  | .publishTopic _ _ _ _ _ =>
    ∃ gateway target topic frame, st = .select gateway (some target) topic frame ∧ topic.isChannel = false
  | other => st.On other.app other.v2 (other.Ops E)

theorem Call.makes_eq (E : Env) {call : Call} (hnotice : call.isNotice = false) :
    call.Makes E = Statement.On call.app call.v2 (call.Ops E) := by
  cases call with
  | publishChannel | publishTopic => cases hnotice
  | _ => rfl

/-- The messages that a client asks for with a frame, each with its audience. The ids, the times and the files are
those that were chosen. -/
inductive ClientFrame.Publishes (p : Peer) (chosen : Choice → Prop) : ClientFrame → Audience → ChannelFrame → Prop where
  | message {channel : String} {audience : Option Audience} {data : String} {encryption : Option EncryptionEnvelope}
      {c : Choice} (hc : chosen c) :
      Publishes p chosen (.channelPublish channel audience data encryption) (audience.getD .all)
        (messageFrame p channel (audience.getD .all) data encryption none c.uuid c.clock)
  | item {items : List PublishItem} {item : PublishItem} (hitem : item ∈ items) {c : Choice} (hc : chosen c) :
      Publishes p chosen (.channelPublishBatch items) (item.audience.getD .all)
        (messageFrame p item.channel (item.audience.getD .all) item.data item.encryption none c.uuid c.clock)
  | file {channel fileId : String} {audience : Option Audience} {data : String} {encryption : Option EncryptionEnvelope}
      {c c' : Choice} {file : RealtimeFile} (hc : chosen c) (hc' : chosen c') (hfile : c'.file = .ok file) :
      Publishes p chosen (.filePublish channel fileId audience data encryption) (audience.getD .all)
        (messageFrame p channel (audience.getD .all) "" none (some file) c.uuid c.clock)

/-- The messages that a call publishes. -/
def Call.Publishes (chosen : Choice → Prop) : Call → ChannelFrame → Prop
  | .frame p request _, f => ∃ audience, request.Publishes p chosen audience f
  | .publishChannel _ publisher channel data, f =>
    f = { type := .channelMessage, channel, publisherAppId := publisher.text, data }
  | _, _ => False

namespace Scope

variable {S : Scope} {p : Peer}

/-- The reader's part of a call, on a frame that was accepted. -/
theorem handleFrame {f : ClientFrame} (hp : p.appId = S.app ∧ p.v2 = S.v2) (hv : S.v2 = true)
    (hops : S.ops = f.Ops S.env p)
    (hf : ∀ audience m, f.Publishes p S.chosen audience m → S.frames m) (rounds : Nat) :
    S.Accepts (handleFrame S.env p rounds f) := by
  have hreport : ∀ e, S.Accepts (report p e) := by
    intro e
    cases e with
    | none => exact trivial
    | some => exact sendTo hp trivial
  have hop {op : RedisOp} (h : f.Ops S.env p op) : S.ops op := hops ▸ h
  cases f with
  | subscribe channels rewind => exact readSubscribe hp hv (fun _ h => hop h) channels rewind rounds
  | unsubscribe channels =>
    refine .bind (unsubscribeV2 hp channels) fun e _ => ?_
    split <;> exact sendTo hp trivial
  | channelPublish =>
    exact .bind (publishV2 hp hv (fun _ h => hop (.inl h)) (fun _ h => hop (.inr h)) fun c hc => hf _ _ (.message hc))
      fun e _ => hreport e
  | channelPublishBatch =>
    refine .bind (publishBatchV2 hp hv (fun _ h => hop (.inl h)) (fun item hitem _ h => hop (.inr ⟨item, hitem, h⟩))
      fun item hitem c hc => hf _ _ (.item hitem hc)) fun f hf => ?_
    exact sendTo hp hf
  | historyGet channel r =>
    refine .bind (historyV2 hp hv (fun _ h => hop h) channel r) fun x hx => ?_
    cases x with
    | error => exact sendTo hp trivial
    | ok page => exact sendTo hp (hx page rfl)
  | presenceUpdate channel data =>
    exact .bind (updatePresence hp hv (fun _ h => hop h) channel data) fun e _ => hreport e
  | messageActionPut channel messageId type =>
    cases type with
    | none => exact trivial
    | some type =>
      refine .bind (putActionV2 hp hv fun n key uuid now hstore hkey => hop ?_) fun e _ => hreport e
      exact ⟨n, key, type, uuid, now, hstore, rfl, hkey, rfl⟩
  | messageActionsGet =>
    refine .bind (listActionsV2 hp hv fun n key hstore hkey => hop ⟨n, key, hstore, hkey, rfl⟩) fun x hx => ?_
    cases x with
    | error => exact sendTo hp trivial
    | ok f => exact sendTo hp (hx f rfl)
  | messageActionRemove =>
    exact .bind (removeActionV2 hp hv fun n key hstore hkey => hop ⟨n, key, hstore, hkey, rfl⟩) fun e _ => hreport e
  | filePublish =>
    exact .bind (publishFileV2 hp hv (fun _ h => hop (.inl h)) (fun _ h => hop (.inr h)) _
      fun c c' file hc hc' hfile => hf _ _ (.file hc hc' hfile)) fun e _ => hreport e
  | ping => exact sendTo hp trivial

theorem removeSection_presence (w : World) (h : (removeSection w p).1 ≠ []) : p.v2 = true := by
  unfold removeSection at h
  cases hs : w.session? p with
  | none => simp [hs] at h
  | some s =>
    simp only [hs] at h
    split at h
    · exact absurd rfl h
    have hpeer : s.peer = p := by simpa using List.find?_some hs
    cases hv : p.v2 with
    | true => rfl
    | false => simp [s.no_presence (hpeer ▸ hv)] at h

/-- A call but for the notices. -/
theorem program {call : Call} (happ : call.app = S.app) (hv2 : call.v2 = S.v2) (hops : S.ops = call.Ops S.env)
    (hf : ∀ m, call.Publishes S.chosen m → S.frames m) (hnotice : call.isNotice = false) :
    S.Accepts (call.program S.env) := by
  cases call with
  | frame p f rounds =>
    show S.Accepts (if p.v2 then readFrame S.env p rounds f else pure ())
    split
    next hv =>
      unfold readFrame
      split
      · exact sendTo ⟨happ, hv2⟩ trivial
      · exact handleFrame ⟨happ, hv2⟩ (hv2 ▸ hv) hops (fun audience m h => hf m ⟨audience, h⟩) rounds
    · exact trivial
  | topics p names =>
    show S.Accepts (if p.v2 then pure () else readTopics p names)
    split
    · exact trivial
    unfold readTopics
    split
    · exact sendTo ⟨happ, hv2⟩ trivial
    refine .bind (checked ⟨⟨happ, hv2⟩, trivial⟩) fun e _ => ?_
    split <;> exact sendTo ⟨happ, hv2⟩ trivial
  | close p =>
    show S.Accepts (Realtime.close S.env p)
    refine .bind (shut ⟨happ, hv2⟩) fun _ _ => .bind (perform ⟨⟨happ, hv2⟩, trivial⟩) ?_
    rintro _ ⟨-, w, c, -, rfl⟩
    refine Program.performs_forM fun e he => leaveChannel ⟨happ, hv2⟩ ?_ (fun op h => hops ▸ h) e
    exact hv2 ▸ removeSection_presence w (ne_nil_of_mem he)
  | refresh p =>
    show S.Accepts (if p.v2 then Realtime.refreshRegistry S.env p else pure ())
    split
    next hv => exact refreshRegistry ⟨happ, hv2⟩ (hv2 ▸ hv) fun op h => hops ▸ h
    · exact trivial
  | receive gateway app n => exact handleRealtimeV2 ⟨happ, hv2.symm⟩ gateway n
  | reconcile gateway app channel => exact reconcilePresence ⟨happ, hv2.symm⟩ (fun op h => hops ▸ h) gateway channel
  | publishChannel | publishTopic => cases hnotice

end Scope

/-- **Every call keeps to its application, but for `PublishChannel` and `publish`**, and passes on what it was given or
what it publishes. -/
theorem Call.makes (E : Env) (call : Call) (chosen : Choice → Prop) (F : ChannelFrame → Prop)
    (hfree : ∀ f, f.type ≠ .channelMessage → F f) (hpaged : ∀ f cursor, F f → F { f with cursor })
    (hf : ∀ m, call.Publishes chosen m → F m) :
    (call.program E).Performs (fun s r => r.Carries F ∧ ∃ w c, chosen c ∧ r = (s.run E w c).1)
      (fun st => call.Makes E st ∧ st.Carries F) fun _ => True := by
  cases hnotice : call.isNotice with
  | false =>
    rw [Call.makes_eq E hnotice]
    let S : Scope := ⟨E, call.app, call.v2, call.Ops E, chosen, F, hfree, hpaged⟩
    exact Scope.program (S := S) rfl rfl rfl hf hnotice
  | true =>
    cases call with
    | publishChannel gateway publisher channel data =>
      show (Realtime.publishChannel gateway publisher channel data).Performs _ _ _
      unfold Realtime.publishChannel
      split
      · exact ⟨⟨⟨_, _, _, rfl⟩, fun _ => ⟨hf _ rfl, nofun⟩⟩, fun _ _ => trivial⟩
      · exact trivial
    | publishTopic gateway source target topic =>
      cases topic with
      | channel => exact trivial
      | _ => exact ⟨⟨⟨_, _, _, _, rfl, rfl⟩, fun _ => trivial⟩, fun _ _ => trivial⟩
    | _ => cases hnotice

end RelayHub.Realtime
