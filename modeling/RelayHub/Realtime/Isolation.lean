import RelayHub.Lib.Noninterference
import RelayHub.Realtime.Scope

/-! # RelayHub realtime — applications do not see each other

What an application sees of the gateways is its `view`: its sessions of the second protocol, its keys in
Redis and what the broker has for it. A statement is on behalf of one application. For the observer's own
statements the view commutes with the machine (`Statement.run_view`), and other applications' statements
leave it alone (`Statement.view_run_other`). The exception is `publish` without an application, the fan-out
of `PublishChannel`: it selects every session on the channel. -/

namespace RelayHub.Realtime

open List Table Program World Session Statement Call RedisOp Input Bool

/-! ## Views -/

/-- A session of the second protocol of an application. -/
def Session.isOf (A : AppId) (s : Session) : Bool := s.peer.v2 && s.peer.appId = A

/-- What an application sees. -/
def World.view (E : Env) (A : AppId) (w : World) : World where
  closed := w.closed
  sessions := w.sessions.filter (·.isOf A)
  redis key := if E.keys.app key = A.text.toList then w.redis key else .missing
  published a := if a = A then w.published a else []

variable {E : Env} {A : AppId} {w : World}

section Views

variable {p : Peer} {f : Session → Session} {q : Session → Bool}

theorem Session.isOf_of_peer {s s' : Session} (h : s'.peer = s.peer) : s'.isOf A = s.isOf A := by
  unfold isOf
  rw [h]

theorem World.session?_view (hp : p.appId = A) (hv : p.v2 = true) : (w.view E A).session? p = w.session? p := by
  show (w.sessions.filter (·.isOf A)).find? _ = _
  rw [find?_filter]
  refine congrArg (fun q => w.sessions.find? q) (funext fun s => ?_)
  by_cases h : s.peer = p
  · simp [isOf, h, hp, hv]
  · simp [h]

theorem World.isActive_view (hp : p.appId = A) (hv : p.v2 = true) : (w.view E A).isActive p = w.isActive p := by
  unfold isActive
  rw [session?_view hp hv]

section

variable (hf : ∀ s, (f s).peer = s.peer)

include hf

theorem World.view_sessions : ({ w with sessions := updateWhere q f w.sessions } : World).view E A =
      { w.view E A with sessions := updateWhere q f (w.view E A).sessions } := by
  unfold view
  congr 1
  exact filter_updateWhere fun s => isOf_of_peer (hf s)

theorem World.view_sessions_other (hq : ∀ s, s.isOf A = true → q s = false) :
    ({ w with sessions := updateWhere q f w.sessions } : World).view E A = w.view E A := by
  rw [view_sessions hf, updateWhere_eq_self]
  intro s hs
  exact hq s (mem_filter.mp hs).2

theorem World.view_update : (w.update p f).view E A = (w.view E A).update p f :=
  view_sessions hf

theorem World.view_update_other (hp : p.appId ≠ A ∨ p.v2 = false) : (w.update p f).view E A = w.view E A := by
  refine view_sessions_other hf fun s hs => ?_
  by_contra hcon
  have heq : s.peer = p := by simpa using hcon
  rw [isOf, heq, and_eq_true, decide_eq_true_eq] at hs
  rcases hp with hp | hp
  · exact hp hs.2
  · rw [hp] at hs
    exact absurd hs.1 (by decide)

end

/-- Sessions that something is counted or collected of are in view. -/
theorem World.filter_view (hq : ∀ s, q s = true → s.isOf A = true) :
    (w.view E A).sessions.filter q = w.sessions.filter q := by
  show (w.sessions.filter (·.isOf A)).filter q = _
  rw [filter_filter]
  refine filter_congr fun s _ => ?_
  cases h : q s with
  | false => rfl
  | true => rw [hq s h]; rfl

theorem World.any_view (hq : ∀ s, q s = true → s.isOf A = true) : (w.view E A).sessions.any q = w.sessions.any q := by
  rw [Bool.eq_iff_iff, any_eq_true, any_eq_true]
  constructor
  · rintro ⟨s, hs, h⟩
    exact ⟨s, (mem_filter.mp hs).1, h⟩
  · rintro ⟨s, hs, h⟩
    exact ⟨s, mem_filter.mpr ⟨hs, hq s h⟩, h⟩

theorem World.occupancy_view (gateway channel : String) :
    (w.view E A).occupancy gateway A channel = w.occupancy gateway A channel := by
  unfold occupancy
  rw [countP_eq_length_filter, countP_eq_length_filter, filter_view]
  intro s hs
  simp only [and_eq_true, decide_eq_true_eq] at hs
  obtain ⟨⟨-, happ⟩, hpresent⟩ := hs
  -- a session of the first protocol has no presence
  cases hv : s.peer.v2 with
  | true => simp [isOf, hv, happ]
  | false => simp [present, s.no_presence hv] at hpresent

theorem World.verdicts_view (c : Choice) (gateway : String) (frame : ChannelFrame) (v : Session.Verdict) :
    verdicts (w.view E A) c gateway A frame v = verdicts w c gateway A frame v := by
  unfold verdicts
  rw [filter_view]
  intro s hs
  simp only [takes, and_eq_true, decide_eq_true_eq] at hs
  simp [isOf, hs.1.1.1.2, hs.1.1.1.1.2]

end Views

/-! ## Statements -/

/-- The operation is on keys of an application. -/
def RedisOp.OnKeysOf (E : Env) (a : AppId) (op : RedisOp) : Prop := ∀ key ∈ op.keys, E.keys.app key = a.text.toList

variable {st : Statement}

section Statements

variable {c : Choice}

theorem RedisOp.run_view {op : RedisOp} (hop : op.OnKeysOf E A) (clock : Int) (ticks : Nat) :
    op.run E.admits clock ticks (w.view E A).redis = ((op.run E.admits clock ticks w.redis).1,
        (({ w with redis := (op.run E.admits clock ticks w.redis).2 } : World).view E A).redis) := by
  have hagree : ∀ key ∈ op.keys, (w.view E A).redis key = w.redis key := fun key hkey => if_pos (hop key hkey)
  obtain ⟨hreply, hdb⟩ := run_congr E.admits clock ticks hagree
  refine Prod.ext hreply (funext fun key => ?_)
  show _ = if E.keys.app key = A.text.toList then _ else _
  split
  next hkey => exact hdb key (if_pos hkey)
  next hkey =>
    rw [run_other _ _ _ fun hmem => hkey (hop key hmem)]
    exact if_neg hkey

/-- **The view of an application commutes with its own statements.** -/
theorem Statement.run_view (hon : st.On A true (RedisOp.OnKeysOf E A)) :
    st.run E (w.view E A) c = ((st.run E w c).1, (st.run E w c).2.view E A) := by
  cases st with
  | stamp | registry | resolveFile => rfl
  | isActive => simp only [run, isActive_view hon.1 hon.2]
  | isDone | presenceOf => simp only [run, session?_view hon.1 hon.2]
  | enqueue p frame => simp only [run, session?_view hon.1 hon.2, view_update (enqueue_peer frame)]
  | shut => simp only [run, view_update shut_peer]
  | subscribe p topics =>
    simp only [run, isActive_view hon.1 hon.2]
    split
    · rfl
    · rw [view_update (subscribe_peer topics)]
  | subscribeV2 p channels rewind =>
    simp only [run, subscribeSection, isActive_view hon.1 hon.2]
    split
    · rfl
    split
    · rfl
    · simp only [Prod.map, id, view_update (subscribeV2_peer channels rewind)]
  | unsubscribeV2 p channels =>
    simp only [run, unsubscribeSection, isActive_view hon.1 hon.2]
    split
    · rfl
    split
    · rfl
    · simp only [Prod.map, id, view_update (unsubscribeV2_peer channels)]
  | finishRewind p seen =>
    simp only [run, finishSection, isActive_view hon.1 hon.2, session?_view hon.1 hon.2]
    split
    · rfl
    · simp only [Prod.map, id, view_update (finishRewind_peer seen c.clock c.victims)]
  | deliver gateway app frame =>
    obtain ⟨rfl, -⟩ := hon
    simp only [run, deliverSection, verdicts_view, view_sessions (offer_peer frame c.clock)]
  | setPresence p channel data =>
    simp only [run, presenceSection, session?_view hon.1 hon.2]
    cases w.session? p with
    | none => rfl
    | some =>
      dsimp only
      split
      · rfl
      split
      · rfl
      · obtain ⟨rfl, -⟩ := hon
        simp only [Prod.map, id, ← view_update (setPresence_peer channel data), occupancy_view]
  | remove p =>
    simp only [run, removeSection, session?_view hon.1 hon.2]
    cases w.session? p with
    | none => rfl
    | some s =>
      dsimp only
      split
      · rfl
      · obtain ⟨rfl, -⟩ := hon
        have hpeer : ∀ s : Session, ({ s with active := false } : Session).peer = s.peer := fun _ => rfl
        simp only [Prod.map, id, ← view_update hpeer, occupancy_view]
  | isSubscribed =>
    obtain ⟨rfl, -⟩ := hon
    simp only [run]
    rw [any_view]
    intro s h
    simp only [and_eq_true, decide_eq_true_eq] at h
    simp [isOf, h.1.1.2, h.1.2]
  | redis =>
    simp only [run, run_view hon.1]
    cases c.fate <;> rfl
  | publish app frame =>
    obtain ⟨rfl, -⟩ := hon
    have hpublished : Function.update (w.view E app).published app ((w.view E app).published app ++ [frame]) =
        (({ w with published := Function.update w.published app (w.published app ++ [frame]) } : World).view E
          app).published := by
      funext a
      by_cases ha : a = app
      · subst ha
        simp [view]
      · simp [view, ha]
    simp only [run]
    cases c.fate with
    | refused => rfl
    | answered | lost => rw [hpublished]; rfl
  | receive app =>
    obtain ⟨rfl, -⟩ := hon
    simp only [run]
    rw [show (w.view E app).published app = w.published app from if_pos rfl]
  | select => exact absurd hon id

/-- `publish` selects sessions of every application, and those in view as the view has them. -/
theorem Statement.select_view (gateway : String) (app : Option AppId) (topic : Topic) (frame : ServerFrame) :
    ((select gateway app topic frame).run E w c).2.view E A =
      ((select gateway app topic frame).run E (w.view E A) c).2 :=
  view_sessions fun _ => rfl

/-- A `publish` that selects no session in view. -/
theorem Statement.view_select {gateway : String} {app : Option AppId} {topic : Topic} {frame : ServerFrame}
    (h : ∀ s ∈ w.sessions, s.isOf A = true → s.selectedBy gateway app topic = false) :
    ((select gateway app topic frame).run E w c).2.view E A = w.view E A := by
  rw [select_view]
  show ({ w.view E A with sessions := updateWhere _ _ (w.view E A).sessions } : World) = _
  rw [updateWhere_eq_self]
  intro s hs
  obtain ⟨hmem, hof⟩ := mem_filter.mp hs
  exact h s hmem hof

/-- **Statements of other applications, and of the first protocol, leave the view alone.** -/
theorem Statement.view_run_other {a : AppId} {v2 : Bool} (hon : st.On a v2 (RedisOp.OnKeysOf E a))
    (hother : a ≠ A ∨ v2 = false) :
    (st.run E w c).2.view E A = w.view E A := by
  have hpeer : ∀ {p : Peer}, p.appId = a ∧ p.v2 = v2 → p.appId ≠ A ∨ p.v2 = false := by
    rintro p ⟨rfl, rfl⟩
    exact hother
  have happ : ∀ {app : AppId}, app = a ∧ v2 = true → app ≠ A := by
    rintro app ⟨rfl, rfl⟩
    exact hother.resolve_right (by decide)
  cases st with
  | stamp | isActive | isDone | registry | presenceOf | isSubscribed | resolveFile | receive => rfl
  | enqueue p frame => exact view_update_other (enqueue_peer frame) (hpeer hon)
  | shut => exact view_update_other shut_peer (hpeer hon)
  | subscribe p topics =>
    simp only [run]
    split
    · rfl
    · exact view_update_other (subscribe_peer topics) (hpeer hon)
  | subscribeV2 p channels rewind =>
    simp only [run, subscribeSection]
    split
    · rfl
    split
    · rfl
    · exact view_update_other (subscribeV2_peer channels rewind) (hpeer hon)
  | unsubscribeV2 p channels =>
    simp only [run, unsubscribeSection]
    split
    · rfl
    split
    · rfl
    · exact view_update_other (unsubscribeV2_peer channels) (hpeer hon)
  | finishRewind p seen =>
    simp only [run, finishSection]
    split
    · rfl
    · exact view_update_other (finishRewind_peer seen c.clock c.victims) (hpeer hon)
  | deliver gateway app frame =>
    refine view_sessions_other (offer_peer frame c.clock) fun s hs => ?_
    simp only [isOf, and_eq_true, decide_eq_true_eq] at hs
    have hne : s.peer.appId ≠ app := fun h => happ hon (h.symm.trans hs.2)
    simp [takes, hne]
  | setPresence p channel data =>
    simp only [run, presenceSection]
    split
    · rfl
    split
    · rfl
    split
    · rfl
    · exact view_update_other (setPresence_peer channel data) (hpeer hon)
  | remove =>
    simp only [run, removeSection]
    split
    · rfl
    split
    · rfl
    · exact view_update_other (fun _ => rfl) (hpeer hon)
  | redis op =>
    have hne : a.text.toList ≠ A.text.toList := fun h =>
      happ ⟨rfl, hon.2⟩ (AppId.ext (String.toList_inj.mp h))
    have hredis : (({ w with redis := (op.run E.admits c.clock c.ticks w.redis).2 } : World).view E A) =
        w.view E A := by
      unfold view
      congr 1
      funext key
      by_cases hkey : E.keys.app key = A.text.toList
      · rw [if_pos hkey, if_pos hkey]
        exact run_other _ _ _ fun hmem => hne ((hon.1 key hmem).symm.trans hkey)
      · rw [if_neg hkey, if_neg hkey]
    simp only [run]
    cases c.fate with
    | refused => rfl
    | answered | lost => exact hredis
  | publish app frame =>
    have hpublished : ({ w with
        published := Function.update w.published app (w.published app ++ [frame]) } : World).view E A =
        w.view E A := by
      unfold view
      congr 1
      funext b
      by_cases hb : b = A
      · subst hb
        simp [Function.update_of_ne (happ hon).symm]
      · simp [hb]
    simp only [run]
    cases c.fate with
    | refused => rfl
    | answered | lost => exact hpublished
  | select => exact absurd hon id

end Statements

/-! ## Keys -/

variable {a : AppId}

section Keys

variable {channel : String} {op : RedisOp}

theorem app_actionKey {maxActions : Nat} {messageId key : String}
    (h : actionKey E maxActions a channel messageId = some key) : E.keys.app key = a.text.toList := by
  unfold actionKey at h
  split at h
  · exact Keyspace.app_of_checked h (by decide) (by simp)
  · cases h

theorem app_historyKey {maxLen : Nat} {key : String} (h : historyKey E maxLen a channel = some key) :
    E.keys.app key = a.text.toList := by
  unfold historyKey at h
  split at h
  · exact Keyspace.app_of_checked h (by decide) (by simp)
  · cases h

theorem app_presenceKeys {p : Peer} {memberKey indexKey : String}
    (h : presenceKeys E p channel = some (memberKey, indexKey)) :
    ∀ key ∈ [memberKey, indexKey], E.keys.app key = p.appId.text.toList := by
  unfold presenceKeys at h
  split at h
  · split at h
    next hmember hindex =>
      obtain ⟨rfl, rfl⟩ := Prod.mk.inj (Option.some.inj h)
      have happ := Keyspace.app_of_checked hmember (by decide) (by simp)
      simpa using ⟨happ, Keyspace.app_of_checked hindex (by decide) (by simp)⟩
    · cases h
  · cases h

theorem RedisOp.Store.onKeysOf (h : op.Store E a) : op.OnKeysOf E a := by
  cases h with
  | rate limit hkey | expire limit hkey =>
    simpa [OnKeysOf, keys] using Keyspace.app_of_checked hkey (by decide) (by simp)
  | append frame hkey | read before count hkey => simpa [OnKeysOf, keys] using app_historyKey hkey
  | upsert ttl hp hkeys | delete hp hkeys => exact hp ▸ app_presenceKeys hkeys

theorem RedisOp.Records.onKeysOf (h : op.Records E a channel) : op.OnKeysOf E a := by
  obtain ⟨n, key, uuid, encrypted, -, hkey, rfl⟩ := h
  simpa [OnKeysOf, keys] using app_actionKey hkey

/-- **A call asks Redis for keys of its application only.** -/
theorem Call.Ops.onKeysOf {call : Call} (h : call.Ops E op) : op.OnKeysOf E call.app := by
  cases call with
  | frame p f =>
    cases f with
    | channelPublish | filePublish =>
      exact h.elim RedisOp.Store.onKeysOf RedisOp.Records.onKeysOf
    | channelPublishBatch =>
      exact h.elim RedisOp.Store.onKeysOf fun ⟨_, _, hrecords⟩ => hrecords.onKeysOf
    | messageActionPut =>
      obtain ⟨n, key, type', uuid, now, -, -, hkey, rfl⟩ := h
      simpa [RedisOp.OnKeysOf, RedisOp.keys, app] using app_actionKey hkey
    | messageActionsGet | messageActionRemove =>
      obtain ⟨n, key, -, hkey, rfl⟩ := h
      simpa [RedisOp.OnKeysOf, RedisOp.keys, app] using app_actionKey hkey
    | _ => exact RedisOp.Store.onKeysOf h
  | _ => exact RedisOp.Store.onKeysOf h

theorem Statement.On.mono {v2 : Bool} {R R' : RedisOp → Prop} (h : st.On a v2 R)
    (hR : ∀ op, R op → R' op) : st.On a v2 R' := by
  cases st with
  | redis op => exact ⟨hR op h.1, h.2⟩
  | _ => exact h

end Keys

/-! ## Owners -/

def Call.owner (call : Call) : Option AppId := some call.app

/-- The application with an id. -/
def AppId.ofText (text : String) : Option AppId :=
  if h : text ≠ "" ∧ text.toList.all (fun c => c.isAlphanum || c = '_' || c = '-') = true then
    some ⟨text, h.1, h.2⟩
  else none

/-- The application of an event; an operator closes a hub. -/
def Event.owner (E : Env) : Event → Option AppId
  | .connect p | .write p | .flush p _ => some p.appId
  | .expire key => AppId.ofText (String.ofList (E.keys.app key))
  | .close _ => none

/-! ## What the observer knows -/

theorem Statement.seen (hon : st.On A true (RedisOp.OnKeysOf E A)) :
    Pools.Seen (hubMachine E) statement (view E A) st := by
  intro c w₁ w₂ hview
  have h₁ := run_view hon (w := w₁) (c := c)
  have h₂ := run_view hon (w := w₂) (c := c)
  rw [hview, h₂] at h₁
  exact ⟨(Prod.mk.inj h₁).1.symm, (Prod.mk.inj h₁).2.symm⟩

theorem Statement.unseen {v2 : Bool} (hon : st.On a v2 (RedisOp.OnKeysOf E a)) (hother : a ≠ A ∨ v2 = false) :
    Pools.Unseen (hubMachine E) statement (view E A) st :=
  fun _ _ => view_run_other hon hother

theorem Statement.seen_select (gateway : String) (app : Option AppId) (topic : Topic) (frame : ServerFrame) :
    Pools.Seen (hubMachine E) statement (view E A) (.select gateway app topic frame) := by
  intro c w₁ w₂ hview
  refine ⟨rfl, ?_⟩
  show ((select gateway app topic frame).run E w₁ c).2.view E A = _
  rw [select_view, hview, ← select_view]
  rfl

theorem Call.performs (E : Env) (call : Call) :
    (call.program E).Performs ((hubMachine E).Answers statement) (call.Makes E) fun _ => True := by
  have hmakes := call.makes E (fun _ => True) (fun _ => True) (fun _ _ => trivial) (fun _ _ _ => trivial)
    fun _ _ => trivial
  refine hmakes.mono ?_ fun _ h => h.1
  rintro s r ⟨w, c, rfl⟩
  refine ⟨?_, w, c, trivial, rfl⟩
  unfold Reply.Carries
  split
  · exact trivial
  · exact fun _ _ => trivial
  · exact fun _ _ => trivial
  · exact trivial

/-- A call makes a `publish`, or keeps to one application and protocol. -/
theorem Call.makes_cases (E : Env) (call : Call) :
    (∀ st, call.Makes E st → ∃ gateway app topic frame, st = .select gateway app topic frame) ∨
      ∀ st, call.Makes E st → st.On call.app call.v2 (RedisOp.OnKeysOf E call.app) := by
  cases hnotice : call.isNotice with
  | false =>
    right
    intro st hst
    rw [makes_eq E hnotice] at hst
    exact hst.mono fun op hop => hop.onKeysOf
  | true =>
    left
    cases call with
    | publishChannel =>
      rintro st ⟨g, c, f, rfl⟩
      exact ⟨_, _, _, _, rfl⟩
    | publishTopic =>
      rintro st ⟨g, t, tp, f, rfl, -⟩
      exact ⟨_, _, _, _, rfl⟩
    | _ => cases hnotice

theorem Call.seen_or_unseen (call : Call) : (call.program E).Performs ((hubMachine E).Answers statement)
        (Pools.Seen (hubMachine E) statement (view E A)) (fun _ => True) ∨
      (call.program E).Performs ((hubMachine E).Answers statement)
        (Pools.Unseen (hubMachine E) statement (view E A)) fun _ => True := by
  have hmakes := call.performs E
  rcases call.makes_cases E with hselect | hon
  · refine .inl (hmakes.mono (fun _ _ h => h) fun st hst => ?_)
    obtain ⟨gateway, app, topic, frame, rfl⟩ := hselect st hst
    exact seen_select gateway app topic frame
  by_cases hown : call.app = A ∧ call.v2 = true
  · refine .inl (hmakes.mono (fun _ _ h => h) fun st hst => seen ?_)
    rw [← hown.1, ← hown.2]
    exact hon st hst
  · rw [not_and_or, not_eq_true] at hown
    exact .inr (hmakes.mono (fun _ _ h => h) fun st hst => unseen (hon st hst) hown)

theorem World.view_connect (s : Session) : ({ w with sessions := w.sessions ++ [s] } : World).view E A =
      { w.view E A with sessions := (w.view E A).sessions ++ [s].filter (·.isOf A) } := by
  unfold view
  rw [filter_append]

theorem Event.view_connect_other {p : Peer} (hof : ¬ ({ peer := p } : Session).isOf A = true) (w : World) :
    ((Event.connect p).run w).view E A = w.view E A := by
  simp only [Event.run]
  split
  · rfl
  · rw [view_connect, filter_cons_of_neg hof, filter_nil, append_nil]

theorem Event.view_congr (e : Event) {w₁ w₂ : World} (h : w₁.view E A = w₂.view E A) :
    (e.run w₁).view E A = (e.run w₂).view E A := by
  have hclosed : w₁.closed = w₂.closed := by
    show (w₁.view E A).closed = _
    rw [h]
    rfl
  cases e with
  | write => exact (view_update write_peer).trans (h ▸ (view_update write_peer).symm)
  | flush p n =>
    exact (view_update (flush_peer n)).trans (h ▸ (view_update (flush_peer n)).symm)
  | expire key =>
    have hredis := congrArg World.redis h
    unfold World.view Event.run
    congr 1
    · exact congrArg World.sessions h
    · funext k
      have hk := congrFun hredis k
      by_cases heq : k = key
      · simp [heq]
      · simpa [view, Function.update_of_ne heq] using hk
    · exact congrArg published h
  | close gateway =>
    have hsessions : w₁.sessions.filter (·.isOf A) = w₂.sessions.filter (·.isOf A) := congrArg sessions h
    have hshut : ∀ w : World, (updateWhere (fun s => s.peer.gateway = gateway) (·.shut) w.sessions).filter
        (·.isOf A) = updateWhere (fun s => s.peer.gateway = gateway) (·.shut) (w.sessions.filter (·.isOf A)) := fun w =>
      filter_updateWhere fun s => isOf_of_peer (shut_peer s)
    unfold view Event.run
    rw [hshut, hshut, hsessions, hclosed]
    congr 1
    · exact congrArg World.redis h
    · exact congrArg World.published h
  | connect p =>
    by_cases hof : ({ peer := p } : Session).isOf A = true
    · have hany : ∀ w : World, (w.view E A).sessions.any (·.peer = p) = w.sessions.any (·.peer = p) := fun w =>
        any_view fun s hs => (isOf_of_peer (by simpa using hs)).trans hof
      have hcond : (w₁.closed.contains p.gateway || p.v2 && p.clientId = "" || w₁.sessions.any (·.peer = p)) =
          (w₂.closed.contains p.gateway || p.v2 && p.clientId = "" || w₂.sessions.any (·.peer = p)) := by
        rw [← hany w₁, h, hany w₂, hclosed]
      simp only [Event.run, hcond]
      split
      · exact h
      · rw [view_connect, view_connect, h]
    · rw [Event.view_connect_other hof, Event.view_connect_other hof, h]

theorem AppId.text_of_ofText {text : String} (h : AppId.ofText text = some a) : text = a.text := by
  unfold AppId.ofText at h
  split at h
  · cases h
    rfl
  · cases h

theorem Event.view_run_other {e : Event} (howner : e.owner E = some a) (ha : a ≠ A) (w : World) :
    (e.run w).view E A = w.view E A := by
  cases e with
  | connect =>
    cases howner
    refine Event.view_connect_other (fun hof => ha ?_) w
    simp only [isOf, and_eq_true, decide_eq_true_eq] at hof
    exact hof.2
  | write =>
    cases howner
    exact view_update_other write_peer (.inl ha)
  | flush p n =>
    cases howner
    exact view_update_other (flush_peer n) (.inl ha)
  | expire key =>
    have happ : E.keys.app key = a.text.toList := by
      rw [← AppId.text_of_ofText howner, String.toList_ofList]
    unfold view Event.run
    dsimp only
    congr 1
    funext k
    by_cases hk : E.keys.app k = A.text.toList
    · have hne : k ≠ key := fun heq => ha (AppId.ext (String.toList_inj.mp (by rw [← happ, ← heq, hk])))
      rw [if_pos hk, if_pos hk, Function.update_of_ne hne]
    · rw [if_neg hk, if_neg hk]
  | close => cases howner

/-! ## Runs -/

/-- The gateways with the calls of each application. -/
abbrev HubPools := Pools World (Option AppId) Call Statement Reply Unit

abbrev HubTurn := OwnedTurn (Option AppId) Call Event Choice

/-- Every interleaving of calls and events. -/
def hubPools (E : Env) : Mealy HubPools HubTurn (Option Reply) :=
  Pools.machine (hubMachine E) (program E) Input.statement Input.event owner

/-- The application whose turn it is. -/
def HubTurn.owner (E : Env) (t : HubTurn) : Option AppId := Pools.turnOwner Call.owner (Event.owner E) t

/-- The gateways without sessions and calls. -/
def HubPools.empty : HubPools := ⟨{}, fun _ => []⟩

/-- The channel frames that a session was sent. -/
def World.channelFrames (w : World) (p : Peer) : List ChannelFrame :=
  ((w.session? p).map fun s => s.frames.filterMap fun
    | .channel f => some f
    | _ => none).getD []

/-- A `PublishChannel` of `B` names no channel that a session of the second protocol of `A` is on. -/
def RoutesElsewhere (A B : AppId) (P : HubPools) : HubTurn → Prop
  | .step o n _ =>
    match P.pending o n with
    | some (.select gateway none (.channel channel) _) =>
      o = some B → ∀ s ∈ P.shared.sessions, s.isOf A = true → s.selectedBy gateway none (.channel channel) = false
    | _ => True
  | _ => True

instance (A B : AppId) (P : HubPools) (t : HubTurn) : Decidable (RoutesElsewhere A B P t) :=
  match t with
  | .step o n _ => by
    unfold RoutesElsewhere
    dsimp only
    split <;> infer_instance
  | .start _ | .outside _ => isTrue trivial

section Runs

variable {B : AppId}

/-- A turn of another application that routes no channel message into the view leaves it alone. -/
theorem RoutesElsewhere.quiet (hAB : A ≠ B) {P : HubPools} {t : HubTurn} (hroutes : RoutesElsewhere A B P t)
    (hlawful : Pools.Lawful (hubMachine E) statement owner (Call.Makes E) P) :
    Pools.Quiet (hubMachine E) (program E) statement event owner (Event.owner E) (view E A) (some B) P t := by
  intro howner
  cases t with
  | start => rfl
  | outside => exact Event.view_run_other howner hAB.symm _
  | step o n c =>
    obtain rfl : o = some B := howner
    cases hpending : P.pending (some B) n with
    | none => rw [Pools.next_step_of_pending hpending]
    | some st =>
      rw [Pools.next_step_shared hpending]
      obtain ⟨call, hcall, hmakes⟩ := hlawful.of_pending hpending
      have hcall : call.app = B := Option.some.inj hcall
      have hscoped : st.On call.app call.v2 (call.Ops E) → (st.run E P.shared c).2.view E A = P.shared.view E A :=
        fun hon => view_run_other (hon.mono fun op hop => hop.onKeysOf) (.inl (hcall ▸ hAB.symm))
      cases call with
      | publishChannel =>
        obtain ⟨g, ch, f, rfl⟩ := hmakes
        simp only [RoutesElsewhere, hpending] at hroutes
        exact view_select (c := c) (hroutes trivial)
      | publishTopic =>
        obtain ⟨g, t, tp, f, rfl, htopic⟩ := hmakes
        refine view_select (c := c) fun s _ hof => ?_
        -- sessions of the second protocol are on channels only
        simp only [isOf, and_eq_true, decide_eq_true_eq] at hof
        by_contra hselected
        simp only [selectedBy, not_eq_false, and_eq_true, contains_iff_mem] at hselected
        rw [s.channels_only hof.1 tp hselected.2] at htopic
        cases htopic
      | _ => exact hscoped hmakes

/-- **Applications are isolated.** Two runs that differ in the calls and events of `B` send the same channel
frames to every session of the second protocol of `A`, if no `PublishChannel` of `B` names a channel that
such a session is on at that time. -/
theorem channels_isolated (E : Env) (A B : AppId) (hAB : A ≠ B) (ts₁ ts₂ : List HubTurn)
    (hsame : (ts₁.filter fun t => HubTurn.owner E t ≠ some B) = ts₂.filter fun t => HubTurn.owner E t ≠ some B)
    (h₁ : (hubPools E).Steps (fun P t _ => RoutesElsewhere A B P t) HubPools.empty ts₁)
    (h₂ : (hubPools E).Steps (fun P t _ => RoutesElsewhere A B P t) HubPools.empty ts₂)
    (p : Peer) (hp : p.appId = A) (hv : p.v2 = true) :
    ((hubPools E).run HubPools.empty ts₁).shared.channelFrames p =
      ((hubPools E).run HubPools.empty ts₂).shared.channelFrames p := by
  have hopen : Pools.Open (hubMachine E) (program E) .statement .event owner (Event.owner E)
      (view E A) (some B) :=
    ⟨fun call _ => call.seen_or_unseen, fun e _ _ _ hview => e.view_congr hview⟩
  have hquiet : ∀ ts, (hubPools E).Steps (fun P t _ => RoutesElsewhere A B P t) .empty ts →
      (hubPools E).Steps (fun P t _ => Pools.Quiet (hubMachine E) (program E) .statement .event
        owner (Event.owner E) (view E A) (some B) P t) .empty ts := fun ts hts =>
    hts.imp_of_kept (I := Pools.Lawful (hubMachine E) .statement owner (Call.Makes E))
      (fun _ _ hx => by cases hx) fun _ t _ hI hroutes => ⟨hI.next (Call.performs E) t, hroutes.quiet hAB hI⟩
  have hview := Pools.view_run hopen {} (hquiet ts₁ h₁) (hquiet ts₂ h₂) hsame
  have hsession : ∀ w : World, w.channelFrames p = (w.view E A).channelFrames p := by
    intro w
    unfold channelFrames
    rw [session?_view hp hv]
  calc ((hubPools E).run .empty ts₁).shared.channelFrames p
      = (((hubPools E).run .empty ts₁).shared.view E A).channelFrames p := hsession _
    _ = (((hubPools E).run .empty ts₂).shared.view E A).channelFrames p :=
        congrArg (fun w => channelFrames w p) hview
    _ = ((hubPools E).run .empty ts₂).shared.channelFrames p := (hsession _).symm

/-- **The keys of an application in Redis change in its own turns only.** -/
theorem redis_changes_by_owner (E : Env) (A : AppId) (ts : List HubTurn) :
    (hubPools E).Steps (fun P t _ => ∀ key, E.keys.app key = A.text.toList →
      ((hubPools E).next P t).shared.redis key ≠ P.shared.redis key → HubTurn.owner E t = some A) .empty ts := by
  refine (Mealy.steps_of_forall _ (C := fun _ _ => True) fun _ _ => trivial).imp_of_kept
    (I := Pools.Lawful (hubMachine E) .statement Call.owner (Call.Makes E)) (fun _ _ hx => by cases hx)
    fun P t _ hI _ => ⟨hI.next (Call.performs E) t, fun key hkey hchanged => ?_⟩
  cases t with
  | start => exact absurd rfl hchanged
  | outside e =>
    cases e with
    | expire k =>
      obtain rfl : key = k := by
        by_contra hne
        exact hchanged (Function.update_of_ne hne ..)
      show AppId.ofText (String.ofList (E.keys.app key)) = _
      rw [hkey, String.ofList_toList]
      exact dif_pos ⟨A.nonempty, A.plain⟩
    | connect p =>
      have hsame : (Event.run P.shared (.connect p)).redis = P.shared.redis := by
        simp only [Event.run]
        split <;> rfl
      exact absurd (congrFun hsame key) hchanged
    | _ => exact absurd rfl hchanged
  | step o n c =>
    cases hpending : P.pending o n with
    | none => exact absurd (by rw [hubPools, Pools.next_step_of_pending hpending]) hchanged
    | some st =>
      rw [hubPools, Pools.next_step_shared hpending] at hchanged
      obtain ⟨call, rfl, hmakes⟩ := hI.of_pending hpending
      by_contra hother
      rcases call.makes_cases E with hselect | hon
      · obtain ⟨_, _, _, _, rfl⟩ := hselect st hmakes
        exact hchanged rfl
      · have hview := view_run_other (w := P.shared) (c := c) (hon st hmakes) (.inl fun h => hother (congrArg some h))
        have hredis : (st.run E P.shared c).2.redis key = P.shared.redis key := by
          simpa [view, hkey] using congrFun (congrArg World.redis hview) key
        exact hchanged hredis

end Runs

/-! ### Two applications on channels of one name -/

/-- A session of an application connects and subscribes to a channel. -/
def subscribing (app : AppId) : List HubTurn :=
  [.outside (.connect (samplePeer app)), .start (.frame (samplePeer app) (.subscribe ["ops"] none) 0)]
    ++ List.replicate 4 (.step (some app) 0 {})

/-- A session publishes a message on the channel. -/
def publishing (app : AppId) : List HubTurn :=
  .start (.frame (samplePeer app) (.channelPublish "ops" none "\x7b\x7d" none) 0)
    :: List.replicate 5 (.step (some app) 1 {})

/-- `PublishChannel` for an application. -/
def routing (app : AppId) (n : Nat) (channel : String) : List HubTurn :=
  [.start (.publishChannel "gw" app channel "\x7b\x7d"), .step (some app) n {}]

/-- A session is sent the frame it was selected for. -/
def flushing (app : AppId) : List HubTurn := [.outside (.flush (samplePeer app) 0)]

/-- The other application is on a channel of the same name, publishes there and routes an event elsewhere. -/
theorem channels_isolated_elsewhere :
    ((hubPools sampleEnv).run HubPools.empty
        (subscribing sampleApp ++ subscribing otherApp ++ publishing otherApp ++ routing otherApp 2 "news"
          ++ publishing sampleApp)).shared.channelFrames (samplePeer sampleApp) =
      ((hubPools sampleEnv).run HubPools.empty
        (subscribing sampleApp ++ publishing sampleApp)).shared.channelFrames (samplePeer sampleApp) :=
  channels_isolated sampleEnv sampleApp otherApp (by decide) _ _ rfl (by decide) (by decide) _ rfl rfl

/-- An event of the other application that is routed to a channel of the same name arrives. -/
theorem channels_shared_by_route :
    ((subscribing sampleApp ++ routing otherApp 0 "ops" ++ flushing sampleApp).filter
        fun t => HubTurn.owner sampleEnv t ≠ some otherApp) =
      ((subscribing sampleApp ++ flushing sampleApp).filter fun t => HubTurn.owner sampleEnv t ≠ some otherApp) ∧
    ((hubPools sampleEnv).run HubPools.empty (subscribing sampleApp ++ routing otherApp 0 "ops"
        ++ flushing sampleApp)).shared.channelFrames (samplePeer sampleApp) =
      [{ type := .channelMessage, channel := "ops", publisherAppId := "app_b", data := "\x7b\x7d" }] ∧
    ((hubPools sampleEnv).run HubPools.empty (subscribing sampleApp
        ++ flushing sampleApp)).shared.channelFrames (samplePeer sampleApp) = [] :=
  ⟨rfl, by decide, by decide⟩

end RelayHub.Realtime
