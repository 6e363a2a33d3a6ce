import RelayHub.Realtime.Scope

/-! # RelayHub realtime — the audience of a message

A message reaches the sessions that its publisher has asked for. In every run, what a session was sent, what it
is about to be sent and what is in its rewind buffer is addressed to it, and each message there, on the broker
and in a stream is one that a call of the run has published, with the audience, the content and the file of the
request. A statement adds to what the hub holds only what it carries (`World.Sourced.statement`), and calls carry what
they were given or publish themselves (`Call.makes`). -/

namespace RelayHub.Realtime

open List

/-- The audience includes a connection, by the connection that has published. -/
def Audience.includes (publisher : String) (p : Peer) : Audience → Bool
  | .all => true
  | .others => p.id ≠ publisher
  | .connection id => p.id = id
  | .client id => p.clientId = id

/-! ## Sessions -/

namespace Session

/-- What the session was sent, is about to be sent and has in its rewind buffer. -/
def mail (s : Session) : List ServerFrame := s.written ++ s.outbound ++ s.selected ++ s.rewindBuffer.map .channel

/-- The mail of the session is addressed to it. -/
def Addressed (F : ChannelFrame → Prop) (s : Session) : Prop := ∀ f ∈ s.mail, f.Addressed F s.peer

variable {F : ChannelFrame → Prop} {s : Session} {f : ServerFrame}

theorem mem_mail : f ∈ s.mail ↔ f ∈ s.frames ∨ f ∈ s.selected ∨ ∃ g ∈ s.rewindBuffer, .channel g = f := by
  simp only [mail, frames, mem_append, mem_map, or_assoc]

namespace Addressed

variable (h : s.Addressed F)

include h

/-- A change that adds one frame for the session. -/
theorem add {s' : Session} (hf : f.Addressed F s.peer) (hpeer : s'.peer = s.peer)
    (hmail : ∀ g ∈ s'.mail, g ∈ s.mail ∨ g = f) : s'.Addressed F := by
  intro g hg
  rw [hpeer]
  rcases hmail g hg with hg | rfl
  · exact h g hg
  · exact hf

theorem enqueue (hf : f.Addressed F s.peer) : (s.enqueue f).Addressed F := by
  refine h.add hf (enqueue_peer f s) fun g hg => ?_
  unfold Session.enqueue at hg
  split at hg
  · simp only [mail, mem_append, mem_singleton] at hg ⊢
    tauto
  · exact .inl hg

theorem flush (n : Nat) : (s.flush n).Addressed F := by
  unfold Session.flush
  split
  · exact h
  next f hf =>
  have hrest : ({ s with selected := s.selected.eraseIdx n } : Session).Addressed F := fun g hg =>
    h g (mem_mail.mpr ((mem_mail.mp hg).imp_right (.imp_left mem_of_mem_eraseIdx)))
  split
  · exact hrest
  · exact hrest.enqueue (h f (mem_mail.mpr (.inr (.inl (mem_of_getElem? hf)))))

theorem select (hf : f.Addressed F s.peer) : ({ s with selected := s.selected ++ [f] } : Session).Addressed F := by
  refine h.add hf rfl fun g hg => ?_
  simp only [mail, mem_append, mem_singleton] at hg ⊢
  tauto

theorem offer {frame : ChannelFrame} (hf : F frame) (now : Int) : (s.offer frame now).Addressed F := by
  unfold Session.offer
  split
  next hreaches =>
    split
    · exact h
    · refine h.add (f := .channel frame) ⟨hf, fun _ => hreaches⟩ rfl fun g hg => ?_
      simp only [mail, map_append, mem_append, map_cons, map_nil, mem_singleton] at hg ⊢
      tauto
    · exact h
    · exact h
  · exact h

theorem finishRewind (ids : List String) (now : Int) (victims : List String) :
    (s.finishRewind ids now victims).Addressed F := by
  unfold Session.finishRewind
  split
  · exact h
  · exact fun g hg => h g (mem_append_left _ (by simpa [mail] using hg))

theorem subscribe (topics : List Topic) : (s.subscribe topics).Addressed F := by
  unfold Session.subscribe
  split <;> exact h

theorem setPresence (channel data : String) : (s.setPresence channel data).Addressed F := by
  unfold Session.setPresence
  split <;> exact h

theorem write : s.write.Addressed F := by
  have hmail : s.write.mail = s.mail := by
    unfold Session.write mail
    rw [append_assoc s.written, take_append_drop]
  intro f hf
  exact h f (hmail ▸ hf)

end Addressed

end Session

/-! ## Streams -/

/-- The entries of a stream, if the value is one. -/
def RedisValue.entries : RedisValue → List (Nat × ChannelFrame)
  | .stream entries => entries
  | _ => []

theorem RedisValue.toStream_eq {v : RedisValue} {entries : List (Nat × ChannelFrame)} (h : v.toStream = some entries) :
    v.entries = entries := by
  cases v with
  | missing | stream =>
    cases h
    rfl
  | _ => cases h

theorem writeKeys_mem (keys : List String) (values : List RedisValue) (db : String → RedisValue) (key : String) :
    writeKeys db keys values key ∈ values ∨ writeKeys db keys values key = db key := by
  induction keys generalizing values db with
  | nil => exact .inr rfl
  | cons k keys ih =>
    cases values with
    | nil => exact .inr rfl
    | cons v values =>
      rcases ih values (Function.update db k v) with h | h
      · exact .inl (mem_cons_of_mem _ h)
      · by_cases hk : key = k
        · exact .inl (mem_cons.mpr (.inl (h.trans (hk ▸ Function.update_self ..))))
        · exact .inr (h.trans (Function.update_of_ne hk ..))

section Streams

variable {F : ChannelFrame → Prop} {op : RedisOp} (admits : Nat → List Int → Int → Bool) (clock : Int) (ticks : Nat)

/-- An operation leaves in a stream what was there, and what it carries. -/
theorem RedisOp.eval_entries {values : List RedisValue} (hop : (Statement.redis op).Carries F)
    (h : ∀ v ∈ values, ∀ e ∈ v.entries, F e.2) :
    (Reply.redis (op.eval admits clock ticks values).1).Carries F ∧
      ∀ v ∈ (op.eval admits clock ticks values).2, ∀ e ∈ v.entries, F e.2 := by
  have hput (n a h) : (Reply.redis (putScript n a h).1).Carries F := by
    unfold putScript
    split
    · exact trivial
    split
    · exact trivial
    split <;> exact trivial
  have hremove (id client h) : (Reply.redis (removeScript id client clock h).1).Carries F := by
    unfold removeScript
    split
    · exact trivial
    split
    · exact trivial
    split <;> exact trivial
  unfold RedisOp.eval
  split
  case h_2 =>
    split
    next entries hstream =>
      refine ⟨trivial, forall_mem_singleton.mpr fun e he => ?_⟩
      rcases mem_append.mp (mem_of_mem_drop he) with he | he
      · exact h _ mem_cons_self e (RedisValue.toStream_eq hstream ▸ he)
      · exact mem_singleton.mp he ▸ hop
    · exact ⟨trivial, h⟩
  case h_3 =>
    split
    next entries hstream =>
      refine ⟨fun e he => h _ mem_cons_self e (RedisValue.toStream_eq hstream ▸ ?_), h⟩
      exact mem_reverse.mp (mem_of_mem_filter (mem_of_mem_take he))
    · exact ⟨trivial, h⟩
  case h_11 => exact ⟨trivial, h⟩
  all_goals
    split
    · exact ⟨by first | exact trivial | exact hput .. | exact hremove ..,
        by first | exact h | simp [RedisValue.entries]⟩
    · exact ⟨trivial, h⟩

theorem RedisOp.run_entries {db : String → RedisValue} (hop : (Statement.redis op).Carries F)
    (h : ∀ key, ∀ e ∈ (db key).entries, F e.2) : (Reply.redis (op.run admits clock ticks db).1).Carries F ∧
      ∀ key, ∀ e ∈ ((op.run admits clock ticks db).2 key).entries, F e.2 := by
  have hvalues : ∀ v ∈ op.keys.map db, ∀ e ∈ v.entries, F e.2 := by
    rintro _ hv
    obtain ⟨key, -, rfl⟩ := mem_map.mp hv
    exact h key
  obtain ⟨hreply, hwritten⟩ := eval_entries admits clock ticks hop hvalues
  refine ⟨hreply, fun key => ?_⟩
  rcases writeKeys_mem op.keys (op.eval admits clock ticks (op.keys.map db)).2 db key with hmem | heq
  · exact hwritten _ hmem
  · rw [show (op.run admits clock ticks db).2 key = db key from heq]
    exact h key

end Streams

/-! ## Runs -/

/-- The mail of every session is addressed to it, and `F` holds of every message that the hub holds. -/
structure World.Sourced (F : ChannelFrame → Prop) (w : World) : Prop where
  mail : ∀ s ∈ w.sessions, s.Addressed F
  broker : ∀ a, ∀ f ∈ w.published a, F f
  streams : ∀ key, ∀ e ∈ (w.redis key).entries, F e.2

namespace World.Sourced

variable {E : Env} {F : ChannelFrame → Prop} {w : World} (h : w.Sourced F)

include h

theorem updateWhere {r : Session → Bool} {g : Session → Session}
    (hg : ∀ s, r s = true → s.Addressed F → (g s).Addressed F) :
    ({ w with sessions := Table.updateWhere r g w.sessions } : World).Sourced F := by
  refine ⟨fun s' hs' => ?_, h.broker, h.streams⟩
  obtain ⟨s, hs, rfl⟩ := mem_map.mp hs'
  split
  next hr => exact hg s hr (h.mail s hs)
  · exact h.mail s hs

theorem update {p : Peer} {g : Session → Session}
    (hg : ∀ s, s.peer = p → s.Addressed F → (g s).Addressed F) : (w.update p g).Sourced F :=
  h.updateWhere fun s hr => hg s (of_decide_eq_true hr)

theorem drained (c : Choice) (p : Peer) (seen : List String) : ∀ f ∈ (finishSection w c p seen).1, F f := by
  intro f hf
  unfold finishSection at hf
  split at hf
  · cases hf
  cases hs : w.session? p with
  | none => simp [hs] at hf
  | some s =>
    simp only [hs, Option.map_some, Option.getD_some] at hf
    exact (h.mail s (mem_of_find?_eq_some hs) _ (Session.mem_mail.mpr (.inr (.inr ⟨f, hf, rfl⟩)))).1

theorem publish (app : AppId) {frame : ChannelFrame} (hf : F frame) :
    ({ w with published := Function.update w.published app (w.published app ++ [frame]) } : World).Sourced F := by
  refine ⟨h.mail, fun a f hmem => ?_, h.streams⟩
  dsimp only at hmem
  by_cases ha : a = app
  · subst ha
    rw [Function.update_self] at hmem
    exact (mem_append.mp hmem).elim (h.broker a f) fun hmem => mem_singleton.mp hmem ▸ hf
  · rw [Function.update_of_ne ha] at hmem
    exact h.broker a f hmem

/-- **A statement keeps to what it carries**, and so does its reply. -/
theorem statement {st : Statement} (hst : st.Carries F) (c : Choice) :
    (st.run E w c).1.Carries F ∧ (st.run E w c).2.Sourced F := by
  cases st with
  | redis op =>
    obtain ⟨hreply, hstreams⟩ := op.run_entries E.admits c.clock c.ticks hst h.streams
    simp only [Statement.run]
    cases c.fate with
    | answered => exact ⟨hreply, h.mail, h.broker, hstreams⟩
    | refused => exact ⟨trivial, h⟩
    | lost => exact ⟨trivial, h.mail, h.broker, hstreams⟩
  | publish app frame =>
    simp only [Statement.run]
    cases c.fate with
    | refused => exact ⟨trivial, h⟩
    | answered | lost => exact ⟨trivial, h.publish app hst⟩
  | receive app n =>
    refine ⟨?_, h⟩
    cases hn : (w.published app)[n]? with
    | none => simp [Statement.run, hn, Reply.Carries]
    | some f => simpa [Statement.run, hn, Reply.Carries] using h.broker app f (mem_of_getElem? hn)
  | finishRewind p seen =>
    refine ⟨h.drained c p seen, ?_⟩
    simp only [Statement.run, finishSection]
    split
    · exact h
    · exact h.update fun _ _ hs => hs.finishRewind _ _ _
  | enqueue p frame => exact ⟨trivial, h.update fun s hp hs => hs.enqueue (hp ▸ hst)⟩
  | shut => exact ⟨trivial, h.update fun _ _ hs => hs⟩
  | deliver => exact ⟨trivial, h.updateWhere fun _ _ hs => hs.offer hst _⟩
  | select => exact ⟨trivial, h.updateWhere fun s _ hs => hs.select (hst s.peer)⟩
  | subscribe =>
    simp only [Statement.run]
    split
    · exact ⟨trivial, h⟩
    · exact ⟨trivial, h.update fun _ _ hs => hs.subscribe _⟩
  | subscribeV2 | unsubscribeV2 =>
    simp only [Statement.run, subscribeSection, unsubscribeSection]
    split
    · exact ⟨trivial, h⟩
    split
    · exact ⟨trivial, h⟩
    · exact ⟨trivial, h.update fun _ _ hs => hs⟩
  | setPresence =>
    simp only [Statement.run, presenceSection]
    split
    · exact ⟨trivial, h⟩
    split
    · exact ⟨trivial, h⟩
    split
    · exact ⟨trivial, h⟩
    · exact ⟨trivial, h.update fun _ _ hs => hs.setPresence _ _⟩
  | remove =>
    simp only [Statement.run, removeSection]
    split
    · exact ⟨trivial, h⟩
    split
    · exact ⟨trivial, h⟩
    · exact ⟨trivial, h.update fun _ _ hs => hs⟩
  | _ => exact ⟨trivial, h⟩

theorem event (e : Event) : (e.run w).Sourced F := by
  cases e with
  | connect p =>
    simp only [Event.run]
    split
    · exact h
    · refine ⟨Table.forall_mem_concat h.mail fun f hf => ?_, h.broker, h.streams⟩
      cases hf
  | write => exact h.update fun _ _ hs => hs.write
  | flush => exact h.update fun _ _ hs => hs.flush _
  | close => exact ⟨(h.updateWhere (g := (·.shut)) fun _ _ hs => hs).mail, h.broker, h.streams⟩
  | expire lost =>
    refine ⟨h.mail, h.broker, fun key x hx => ?_⟩
    simp only [Event.run, Function.update_apply] at hx
    split at hx
    · cases hx
    · exact h.streams key x hx

end World.Sourced

/-- The frame is no message, or it is published by a call of the run: with an id and a time from the steps of the call,
and with a file that was resolved in one of them. -/
def Published (ts : List (Turn Call Event Choice)) (f : ChannelFrame) : Prop :=
  f.type = .channelMessage → ∃ (n : Nat) (call : Call), (ts.filterMap Turn.started)[n]? = some call ∧
    call.Publishes (fun c => Turn.step n c ∈ ts) { f with cursor := "" }

theorem Call.Publishes.published {ts : List (Turn Call Event Choice)} {n : Nat} {call : Call} {m : ChannelFrame}
    (h : call.Publishes (fun c => Turn.step n c ∈ ts) m) (hcall : (ts.filterMap Turn.started)[n]? = some call) :
    Published ts m := by
  have hcursor : { m with cursor := "" } = m := by
    cases call with
    | frame =>
      obtain ⟨_, h⟩ := h
      cases h <;> rfl
    | publishChannel =>
      obtain rfl := h
      rfl
    | _ => cases h
  exact fun _ => ⟨n, call, hcall, hcursor.symm ▸ h⟩

/-- **Every message in the hub is published by a call of the run**, and the mail of a session is addressed to it. -/
theorem sourced_hubAfter (E : Env) (ts : List (Turn Call Event Choice)) :
    (hubAfter E ts).shared.Sourced (Published ts) := by
  have hinit : World.Sourced (Published ts) {} := by
    refine ⟨fun s hs => ?_, fun _ _ hf => ?_, fun _ _ he => ?_⟩
    · cases hs
    · cases hf
    · cases he
  have hstart : Pool.Lawful (fun n s r => Reply.Carries (Published ts) r ∧ ∃ w c, Turn.step n c ∈ ts ∧
    r = (s.run E w c).1)
      (fun _ => Statement.Carries (Published ts)) (⟨{}, []⟩ : HubPool).calls := by
    rintro _ _ ⟨⟩
  have houtside : ∀ (_ : List Input) (w : World) (e : Event), w.Sourced (Published ts) →
      ((hubMachine E).next w (.event e)).Sourced (Published ts) := fun _ _ e h => h.event e
  refine (Pool.performs_run (I := fun _ w => w.Sourced (Published ts)) [] ts ?_ houtside ?_ hstart hinit).2
  · intro is w n st c hmem hst h
    obtain ⟨hreply, hnext⟩ := h.statement hst c
    exact ⟨⟨hreply, w, c, hmem, rfl⟩, hnext⟩
  · intro n call hcall
    refine (call.makes E _ _ (fun f hf htype => absurd htype hf) (fun _ _ h => h) fun m h => h.published hcall).mono
      (fun _ _ h => h) fun _ h => h.2

/-- A client has asked for the message with an audience: the frame has the channel, the data and the encryption of the
request, or the file that was resolved for it, and an id from the steps of the call. -/
def Requested (ts : List (Turn Call Event Choice)) (f : ChannelFrame) (publisher : Peer) (audience : Audience) : Prop :=
  ∃ (n : Nat) (request : ClientFrame) (rounds : Nat),
    (ts.filterMap Turn.started)[n]? = some (.frame publisher request rounds) ∧
      request.Publishes publisher (fun c => Turn.step n c ∈ ts) audience { f with cursor := "" }

/-- The message is one of `PublishChannel`. -/
def Notified (ts : List (Turn Call Event Choice)) (f : ChannelFrame) : Prop :=
  ∃ gateway publisher channel data, .publishChannel gateway publisher channel data ∈ ts.filterMap Turn.started ∧
    { f with cursor := "" } = { type := .channelMessage, channel, publisherAppId := publisher.text, data }

theorem ClientFrame.Publishes.eq {p : Peer} {chosen : Choice → Prop} {request : ClientFrame} {audience : Audience}
    {f : ChannelFrame} (h : request.Publishes p chosen audience f) :
    f.audience = some audience ∧ ∀ q, f.reaches q = audience.includes p.id q := by
  have hreaches : ∀ {channel audience data encryption file uuid now} (q : Peer),
      (messageFrame p channel audience data encryption file uuid now).reaches q = audience.includes p.id q := by
    intro channel audience data encryption file uuid now q
    cases audience <;> rfl
  cases h <;> exact ⟨rfl, hreaches⟩

theorem Published.requested {ts : List (Turn Call Event Choice)} {f : ChannelFrame} (h : Published ts f)
    (htype : f.type = .channelMessage) : (f.audience = none ∧ Notified ts f) ∨ ∃ publisher audience,
      Requested ts f publisher audience ∧ f.audience = some audience ∧
        ∀ q, f.reaches q = audience.includes publisher.id q := by
  obtain ⟨n, call, hcall, hpublishes⟩ := h htype
  cases call with
  | frame p request rounds =>
    obtain ⟨audience, hpublishes⟩ := hpublishes
    exact .inr ⟨p, audience, ⟨n, request, rounds, hcall, hpublishes⟩, hpublishes.eq⟩
  | publishChannel =>
    exact .inl ⟨congrArg ChannelFrame.audience hpublishes, _, _, _, _, mem_of_getElem? hcall, hpublishes⟩
  | _ => cases hpublishes

/-- **A message reaches its audience only.** Every channel message that a session has, live or in its
rewind buffer, is one that a client has asked for with an audience that includes the session, or one of
`PublishChannel`; every message in a page was asked for with the audience of everybody. -/
theorem message_reaches_audience (E : Env) (ts : List (Turn Call Event Choice)) (p : Peer) (s : Session)
    (hs : (hubAfter E ts).shared.session? p = some s) :
    (∀ f, .channel f ∈ s.frames ∨ f ∈ s.rewindBuffer → f.type = .channelMessage → Notified ts f ∨
      ∃ publisher audience, Requested ts f publisher audience ∧ audience.includes publisher.id p = true) ∧
    ∀ name items next continuity, .history name items next continuity ∈ s.frames → ∀ f ∈ items,
      ∃ publisher, Requested ts f publisher .all := by
  have hpeer : s.peer = p := by simpa using find?_some hs
  have hmail : ∀ f ∈ s.mail, f.Addressed (Published ts) p :=
    hpeer ▸ (sourced_hubAfter E ts).mail s (mem_of_find?_eq_some hs)
  refine ⟨fun f hf htype => ?_, fun name items next continuity hpage f hf => ?_⟩
  · have haddressed : (ServerFrame.channel f).Addressed (Published ts) p :=
      hmail _ (Session.mem_mail.mpr (hf.imp_right fun hf => .inr ⟨f, hf, rfl⟩))
    rcases haddressed.1.requested htype with ⟨-, hnotified⟩ | ⟨publisher, audience, hrequested, hsome, hincludes⟩
    · exact .inl hnotified
    · exact .inr ⟨publisher, audience, hrequested, (hincludes p).symm.trans (haddressed.2 (by rw [hsome]; rfl))⟩
  · obtain ⟨hpublished, htype, haudience⟩ := hmail _ (Session.mem_mail.mpr (.inl hpage)) f hf
    rcases hpublished.requested htype with ⟨hnone, -⟩ | ⟨publisher, audience, hrequested, hsome, -⟩
    · cases hnone.symm.trans haudience
    · cases hsome.symm.trans haudience
      exact ⟨publisher, hrequested⟩

/-- A session of the same client. -/
def otherPeer : Peer := { samplePeer sampleApp with id := "conn_other" }

/-- Two sessions subscribe to a channel, and one of them publishes for the others. -/
def publishingForOthers : List (Turn Call Event Choice) :=
  [.outside (.connect (samplePeer sampleApp)), .start (.frame (samplePeer sampleApp) (.subscribe ["ops"] none) 0)]
    ++ replicate 4 (.step 0 {})
    ++ [.outside (.connect otherPeer), .start (.frame otherPeer (.subscribe ["ops"] none) 0)] ++
      replicate 4 (.step 1 {})
    ++ .start (.frame (samplePeer sampleApp) (.channelPublish "ops" (some .others) "\x7b\x7d" none) 0)
      :: replicate 5 (.step 2 {})

/-- The other session has the message. -/
theorem message_reaches_audience_others :
    ∃ s f, (hubAfter sampleEnv publishingForOthers).shared.session? otherPeer = some s ∧
    s.frames = [.subscribed [] ["ops"], .channel f] ∧ (Notified publishingForOthers f ∨ ∃ publisher audience,
      Requested publishingForOthers f publisher audience ∧ audience.includes publisher.id otherPeer = true) := by
  refine ⟨_, messageFrame (samplePeer sampleApp) "ops" .others "\x7b\x7d" none none ⟨"", by decide⟩ 0,
    rfl, by decide, ?_⟩
  exact (message_reaches_audience sampleEnv publishingForOthers otherPeer _ rfl).1 _ (.inl (by decide)) rfl

end RelayHub.Realtime
