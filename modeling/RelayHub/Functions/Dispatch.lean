import RelayHub.Functions.Finish
import RelayHub.Functions.Gateway

/-! # RelayHub functions — an invocation reaches one handler

A gateway that has reserved an invocation holds a *right* to it until it has enqueued the frame or released
the row. `gatewayDiscipline` is that protocol as modes of a call: only a holder acknowledges, releases and
sends, and `GatewayCall.follows` shows that the calls keep to it whatever their statements reply. A release
whose caller gave up is a right as well, since it may still take effect, and so is a frame that was sent.
`Tally.Ok` is the invariant over all gateways: while an invocation waits there is no right to it, and at no
time are there two. -/

namespace RelayHub.Functions

open List Table Program Pool Statement

/-! ## The protocol of a call -/

/-- Where a call stands. -/
inductive Mode where
  | free
  /-- It may still store the invocation. -/
  | creating (id : String)
  /-- It has reserved the invocation for the connection. -/
  | holding (owner connection id : String)
  deriving DecidableEq

def storeDiscipline : Discipline Mode Statement Reply where
  allows m
    | .insert v _ => m = .creating v.id
    | .claim _ _ _ => m = .free
    | .acknowledge owner connection id => m = .holding owner connection id
    | .release owner connection id => m = .holding owner connection id
    | _ => True
  after m
    | .insert _ _, _ => .free
    | .claim owner connection id, .affected 1 => .holding owner connection id
    | .release _ _ _, _ => .free
    | _, _ => m

def gatewayDiscipline : Discipline Mode GatewayStatement GatewayReply where
  allows m
    | .store s => storeDiscipline.allows m s
    | .enqueue session frame => ∃ owner, m = .holding owner session frame.invocationId
    | _ => True
  after m
    | .store s, r => storeDiscipline.after m s r.toStore
    | .enqueue _ _, .flag true => .free
    | _, _ => m

variable {m : Mode}

section Calls

variable {α : Type} {Q : Mode → α → Prop} (E : FunctionEnv)

theorem follows_onStore {p : Program Statement Reply α} (h : p.Follows storeDiscipline Q m) :
    (onStore p).Follows gatewayDiscipline Q m :=
  h.translate (fun _ _ hs => hs) fun _ _ _ => rfl

theorem getInvocation_follows (m : Mode) (id : String) :
    (getInvocation id).Follows storeDiscipline (fun m' _ => m' = m) m := by
  refine follows_perform trivial fun r => ?_
  split
  · refine follows_perform trivial fun r => ?_
    split <;> rfl
  · rfl

/-- A call returns nil exactly when its `UPDATE` changed one row. -/
theorem expectOne_follows (m : Mode) (id : String) (r : Reply) :
    (expectOne id r).Follows storeDiscipline (fun m' a => m' = m ∧ (a = .ok () ↔ r = .affected 1)) m := by
  unfold expectOne
  split
  · exact follows_pure ⟨rfl, by simp⟩
  next hn =>
    refine (getInvocation_follows m id).bind fun m' _ hm => follows_pure ⟨hm, ?_⟩
    simp only [reduceCtorEq, Reply.affected.injEq, false_iff]
    exact fun h => hn (h ▸ rfl)
  next hother _ =>
    refine follows_pure ⟨rfl, ?_⟩
    simp only [reduceCtorEq, false_iff]
    exact hother

theorem createInvocation_follows (v : Invocation) (key : String) :
    (createInvocation E v key).Follows storeDiscipline (fun _ _ => True) (.creating v.id) := by
  have hget : ∀ m id flag, (do return (← getInvocation id).map fun r => (r, flag) :
      Program Statement Reply (Except FunctionError (InvocationRow × Bool))).Follows storeDiscipline
        (fun _ _ => True) m := fun m id flag =>
    (getInvocation_follows m id).bind fun _ _ _ => follows_pure trivial
  unfold createInvocation
  split
  · trivial
  refine follows_perform trivial fun r => ?_
  split
  · refine follows_perform rfl fun r => ?_
    split
    · exact hget _ _ false
    · refine follows_perform trivial fun r => ?_
      split
      · exact hget _ _ true
      · trivial
      · trivial
    · trivial
  · trivial

theorem findInvocation_follows (caller key : String) :
    (findInvocation E caller key).Follows storeDiscipline (fun _ _ => True) m := by
  refine follows_perform trivial fun r => ?_
  split
  · exact (getInvocation_follows _ _).mono fun _ _ _ => trivial
  · trivial
  · trivial

theorem completeInvocation_follows (owner connection : String) (result : RPCResult) :
    (completeInvocation E owner connection result).Follows storeDiscipline (fun _ _ => True) m := by
  unfold completeInvocation
  split
  · trivial
  · refine follows_perform trivial fun r => ?_
    exact (expectOne_follows _ _ _).mono fun _ _ _ => trivial

theorem after_claim_ne {owner connection id : String} {r : Reply} (h : r ≠ .affected 1) :
    storeDiscipline.after .free (.claim owner connection id) r = .free := by
  simp only [storeDiscipline]
  split <;> simp_all

/-- A call that reserves ends as the holder, or without a right. -/
theorem claimInvocation_follows (owner connection id : String) :
    (claimInvocation owner connection id).Follows storeDiscipline (fun m a => match a with
        | .ok () => m = .holding owner connection id ∧ ¬ (id = "" || owner = "" || connection = "") = true
        | .error _ => m = .free) .free := by
  unfold claimInvocation transitionInvocation
  split
  · rfl
  next hnonempty =>
  refine follows_perform rfl fun r => (expectOne_follows _ _ _).mono ?_
  rintro _ a ⟨rfl, hok⟩
  cases a with
  | ok =>
    rw [hok.mp rfl]
    exact ⟨rfl, hnonempty⟩
  | error => exact after_claim_ne fun h => nomatch hok.mpr h

/-- A transition of the holder ends in one mode, whatever the reply is. -/
theorem transitionInvocation_follows {m m' : Mode} {s : Statement} {id connection owner : String}
    (hnonempty : ¬ (id = "" || owner = "" || connection = "") = true) (hallows : storeDiscipline.allows m s)
    (hafter : ∀ r, storeDiscipline.after m s r = m') :
    (transitionInvocation s id connection owner).Follows storeDiscipline (fun m _ => m = m') m := by
  rw [transitionInvocation, if_neg hnonempty]
  exact follows_perform hallows fun r => (expectOne_follows _ _ _).mono fun _ _ h => h.1.trans (hafter r)

theorem isDone_follows (m : Mode) (session : String) :
    (isDone session).Follows gatewayDiscipline (fun m' _ => m' = m) m := by
  refine follows_perform trivial fun r => ?_
  split <;> rfl

theorem send_follows (owner session : String) (frame : InvokeFrame) : (send session frame).Follows gatewayDiscipline
      (fun m sent => m = if sent then .free else .holding owner session frame.invocationId)
      (.holding owner session frame.invocationId) := by
  refine (isDone_follows _ session).bind ?_
  rintro _ done rfl
  split
  · rfl
  refine follows_perform ⟨owner, rfl⟩ fun r => ?_
  cases r with
  | flag b => cases b <;> rfl
  | _ => rfl

/-- **The loop over the sessions keeps the protocol.** -/
theorem invokeSessions_follows (frame : InvokeFrame) (sessions : List SessionRef) :
    (invokeSessions frame sessions).Follows gatewayDiscipline (fun m _ => m = .free) .free := by
  induction sessions with
  | nil => rfl
  | cons s rest ih =>
    -- after a release the loop goes on without a right
    have hrelease : ¬ (frame.invocationId = "" || s.appId = "" || s.id = "") = true → (do
          releaseSession s frame
          invokeSessions frame rest : Program GatewayStatement GatewayReply Bool).Follows gatewayDiscipline
            (fun m _ => m = .free) (.holding s.appId s.id frame.invocationId) := by
      intro hnonempty
      have hsession : (releaseSession s frame).Follows gatewayDiscipline (fun m _ => m = .free)
          (.holding s.appId s.id frame.invocationId) :=
        (follows_onStore (transitionInvocation_follows hnonempty (by rfl) (by intro; rfl))).bind
          fun _ _ h => follows_pure h
      refine hsession.bind ?_
      rintro _ _ rfl
      exact ih
    refine (isDone_follows _ s.id).bind ?_
    rintro _ done rfl
    split
    · exact ih
    refine (follows_onStore (claimInvocation_follows _ _ _)).bind fun m claimed hclaim => ?_
    cases claimed with
    | error =>
      obtain rfl := hclaim
      exact ih
    | ok =>
      obtain ⟨rfl, hnonempty⟩ := hclaim
      refine (isDone_follows _ s.id).bind ?_
      rintro _ done rfl
      split
      · exact hrelease hnonempty
      refine (follows_onStore (transitionInvocation_follows hnonempty (by rfl) (by intro; rfl))).bind ?_
      rintro _ acknowledged rfl
      cases acknowledged with
      | error => exact hrelease hnonempty
      | ok =>
        refine (send_follows _ _ frame).bind fun m sent hsent => ?_
        cases sent with
        | true => exact follows_pure hsent
        | false =>
          obtain rfl := hsent
          exact hrelease hnonempty

theorem invokeFunction_follows (gateway appId : String) (frame : InvokeFrame) :
    (invokeFunction gateway appId frame).Follows gatewayDiscipline (fun m _ => m = .free) .free := by
  refine follows_perform trivial fun r => ?_
  split
  · exact invokeSessions_follows _ _
  · rfl

theorem handleInvocation_follows (gateway : String) (message : InvocationRequest) :
    (handleInvocation gateway message).Follows gatewayDiscipline (fun _ _ => True) .free := by
  refine (follows_onStore (getInvocation_follows _ _)).bind ?_
  rintro _ read rfl
  cases read with
  | error => trivial
  | ok =>
    dsimp only
    split
    · trivial
    split
    · trivial
    refine (invokeFunction_follows _ _ _).bind fun m accepted _ => ?_
    exact follows_perform trivial fun _ => follows_pure trivial

theorem publishLoop_follows (n : Nat) (deadline : Int) (rounds : Nat) :
    (publishLoop n deadline rounds).Follows gatewayDiscipline (fun _ _ => True) .free := by
  induction rounds with
  | zero => trivial
  | succ rounds ih =>
    refine follows_perform trivial fun r => ?_
    split
    · refine follows_perform trivial fun r => ?_
      split
      · trivial
      · refine follows_perform trivial fun r => ?_
        split
        · trivial
        refine follows_perform trivial fun r => ?_
        split
        · trivial
        · exact ih
      · exact ih
    · trivial
    · trivial

theorem publishInvocation_follows (invocationId : String) (deadline : Int) (rounds : Nat) :
    (publishInvocation invocationId deadline rounds).Follows gatewayDiscipline (fun _ _ => True) .free := by
  refine follows_perform trivial fun r => ?_
  split
  · refine (publishLoop_follows _ _ _).bind fun m result _ => ?_
    split
    · exact follows_perform trivial fun _ => follows_pure trivial
    · trivial
  · trivial

end Calls

/-- The mode a call starts in. -/
def GatewayCall.mode : GatewayCall → Mode
  | .create v _ => .creating v.id
  | _ => .free

variable (E : FunctionEnv)

/-- **Every call keeps to the protocol.** -/
theorem GatewayCall.follows (call : GatewayCall) :
    (call.program E).Follows gatewayDiscipline (fun _ _ => True) call.mode := by
  have hdrop : ∀ {α : Type} {m : Mode} {Q : Mode → α → Prop} {p : Program GatewayStatement GatewayReply α},
      p.Follows gatewayDiscipline Q m →
      (do
        let _ ← p
        return ()).Follows gatewayDiscipline (fun _ _ => True) m := fun h =>
    h.bind fun _ _ _ => follows_pure trivial
  cases call with
  | create v key => exact hdrop (follows_onStore (createInvocation_follows E v key))
  | get id => exact hdrop (follows_onStore (getInvocation_follows _ id))
  | find caller key => exact hdrop (follows_onStore (findInvocation_follows E caller key))
  | complete owner connection result =>
    exact hdrop (follows_onStore (completeInvocation_follows E owner connection result))
  | invoke gateway appId frame => exact hdrop (invokeFunction_follows gateway appId frame)
  | handle gateway message => exact handleInvocation_follows gateway message
  | publish invocationId deadline rounds => exact hdrop (publishInvocation_follows invocationId deadline rounds)

/-! ## Rights -/

/-- The calls of a pool with their modes. -/
abbrev Modes := List (GatewayCall × Mode)

def holdsRight (id : String) (c : GatewayCall × Mode) : Bool :=
  match c.2 with
  | .holding _ _ i => i = id
  | _ => false

def mayStore (id : String) (c : GatewayCall × Mode) : Bool :=
  match c.2 with
  | .creating i => i = id
  | _ => false

def GatewayCall.isCreate (id : String) : GatewayCall → Bool
  | .create v _ => v.id = id
  | _ => false

def Statement.releases (id : String) : Statement → Bool
  | .release _ _ i => i = id
  | _ => false

def Statement.inserts (id : String) : Statement → Bool
  | .insert v _ => v.id = id
  | _ => false

/-- How often the frame of an invocation was enqueued. -/
def World.sends (w : World) (id : String) : Nat := w.sent.countP fun x => x.2.invocationId = id

/-- The rights to an invocation: the calls that hold one, the releases under way, the frames sent. -/
def rights (id : String) (w : World) (modes : Modes) : Nat :=
  modes.countP (holdsRight id) + w.store.adrift.countP (releases id) + w.sends id

/-- The `INSERT`s of an invocation still to come. -/
def creations (id : String) (w : World) (modes : Modes) : Nat :=
  modes.countP (mayStore id) + w.store.adrift.countP (inserts id)

/-- The calls that create an invocation. -/
def labels (id : String) (modes : Modes) : Nat := modes.countP (·.1.isCreate id)

def World.Stored (w : World) (id : String) : Prop := ∃ r ∈ w.store.db.invocations, r.id = id

def World.Waiting (w : World) (id : String) : Prop :=
  ∃ r ∈ w.store.db.invocations, r.id = id ∧ r.state = .pending

/-- **The invariant.** With one call that creates the invocation, there is at most one right to it and none
while it waits. -/
structure Exclusive (id : String) (w : World) (modes : Modes) : Prop where
  ids : (w.store.db.invocations.map (·.id)).Nodup
  few : creations id w modes ≤ labels id modes
  spent : w.Stored id ∨ 0 < rights id w modes → creations id w modes < labels id modes
  once : labels id modes ≤ 1 → rights id w modes ≤ 1
  none : labels id modes ≤ 1 → w.Waiting id → rights id w modes = 0

variable {id : String} {w w' : World} {modes : Modes}

section Steps

variable {modes' : Modes}

theorem World.Waiting.stored (h : w.Waiting id) : w.Stored id := by
  obtain ⟨r, hr, hid, -⟩ := h
  exact ⟨r, hr, hid⟩

/-- What a step may do to the rights of an invocation. -/
inductive RightsStep (id : String) (w w' : World) (modes modes' : Modes) : Prop where
  | kept (hc : creations id w' modes' ≤ creations id w modes) (hr : rights id w' modes' ≤ rights id w modes)
      (hstored : w'.Stored id → w.Stored id) (hwaiting : w'.Waiting id → w.Waiting id) :
      RightsStep id w w' modes modes'
  /-- The invocation may be stored now. -/
  | store (hc : creations id w' modes' < creations id w modes) (hr : rights id w' modes' ≤ rights id w modes) :
      RightsStep id w w' modes modes'
  /-- A right was given up. -/
  | release (hc : creations id w' modes' ≤ creations id w modes) (hr : rights id w' modes' < rights id w modes)
      (hstored : w'.Stored id → w.Stored id) : RightsStep id w w' modes modes'
  /-- A call has reserved the invocation. -/
  | reserve (hc : creations id w' modes' ≤ creations id w modes)
      (hr : rights id w' modes' ≤ rights id w modes + 1) (hwaiting : w.Waiting id) (hgone : ¬ w'.Waiting id) :
      RightsStep id w w' modes modes'

structure GatewayStep (id : String) (w w' : World) (modes modes' : Modes) : Prop where
  ids : (w.store.db.invocations.map (·.id)).Nodup → (w'.store.db.invocations.map (·.id)).Nodup
  rights : RightsStep id w w' modes modes'

theorem Exclusive.step (h : Exclusive id w modes) (hlabels : labels id modes' = labels id modes)
    (hstep : GatewayStep id w w' modes modes') : Exclusive id w' modes' := by
  have hids := hstep.ids h.ids
  have hfew := h.few
  have hspent := h.spent
  have honce := h.once
  have hnone := h.none
  cases hstep.rights with
  | kept hc hr hstored hwaiting =>
    refine ⟨hids, by omega, fun hw => ?_, fun hl => ?_, fun hl hw => ?_⟩
    · have := hspent (hw.imp hstored fun hpos => by omega)
      omega
    · omega
    · have := hnone (by omega) (hwaiting hw)
      omega
  | store =>
    -- an `INSERT` was still to come, so with one creating call nobody had a right
    refine ⟨hids, by omega, fun _ => by omega, fun hl => ?_, fun hl _ => ?_⟩ <;>
      · omega
  | release =>
    refine ⟨hids, by omega, fun hw => ?_, fun hl => ?_, fun hl _ => ?_⟩
    · omega
    · omega
    · omega
  | reserve hc hr hwaiting hgone =>
    refine ⟨hids, by omega, fun _ => ?_, fun hl => ?_, fun _ hw => absurd hw hgone⟩
    · have := hspent (.inl hwaiting.stored)
      omega
    · have := hnone (by omega) hwaiting
      omega

/-! ## The store -/

section Effects

variable {s : Statement} {clock : Int} {db : FunctionDb}

theorem run_stored {r' : InvocationRow} (hr' : r' ∈ (s.run clock db).2.invocations) (hid : r'.id = id) :
    (∃ r ∈ db.invocations, r.id = id) ∨ s.inserts id = true := by
  rcases (run_change s clock db).back hr' with hr | ⟨r, hr, hrow⟩ | ⟨v, hash, rfl, hrow, -⟩
  · exact .inl ⟨r', hr, hid⟩
  · exact .inl ⟨r, hr, hrow.id_eq.symm.trans hid⟩
  · exact .inr (decide_eq_true ((Invocation.row_new hrow).1.symm.trans hid))

/-- Only a release or an `INSERT` makes an invocation wait. -/
theorem run_waiting {r' : InvocationRow} (hr' : r' ∈ (s.run clock db).2.invocations) (hid : r'.id = id)
    (hstate : r'.state = .pending) :
    (∃ r ∈ db.invocations, r.id = id ∧ r.state = .pending) ∨ s.releases id = true ∨ s.inserts id = true := by
  rcases (run_change s clock db).back hr' with hr | ⟨r, hr, hrow⟩ | ⟨v, hash, rfl, hrow, -⟩
  · exact .inl ⟨r', hr, hid, hstate⟩
  · cases hrow with
    | kept => exact .inl ⟨_, hr, hid, hstate⟩
    | release connection hs => exact .inr (.inl (hs ▸ decide_eq_true hid))
    | timeout _ hclaimed => simp [InvocationRow.ended, hclaimed] at hstate
    | unavailable _ hwaits => rcases hwaits with hwaits | hwaits <;> simp [InvocationRow.ended, hwaits] at hstate
    | claim | acknowledge => cases hstate
    | complete _ result =>
      have hcompleted := RPCResult.state_completed result
      rw [show result.state = .pending from hstate] at hcompleted
      cases hcompleted
  · exact .inr (.inr (decide_eq_true ((Invocation.row_new hrow).1.symm.trans hid)))

/-- A claim that changes a row found it waiting, and it waits no longer. -/
theorem run_claimed {owner connection : String} (hnd : (db.invocations.map (·.id)).Nodup)
    (h : ((claim owner connection id).run clock db).1 = .affected 1) :
    (∃ r ∈ db.invocations, r.id = id ∧ r.state = .pending) ∧
      ∀ r' ∈ ((claim owner connection id).run clock db).2.invocations, r'.id = id → r'.state ≠ .pending := by
  have hcount : db.invocations.countP (·.claimable db owner connection id clock) = 1 := Reply.affected.inj h
  obtain ⟨r, hr, hclaimable⟩ := countP_pos_iff.mp (hcount ▸ Nat.one_pos)
  have hguard := hclaimable
  simp only [InvocationRow.claimable, Bool.and_eq_true, decide_eq_true_eq] at hguard
  obtain ⟨⟨⟨⟨⟨⟨hid, -⟩, -⟩, hstate⟩, -⟩, -⟩, -⟩ := hguard
  refine ⟨⟨r, hr, hid, hstate⟩, fun r' hr' hid' => ?_⟩
  obtain ⟨r₀, hr₀, rfl⟩ := mem_updateWhere.mp hr'
  have hr₀id : r₀.id = r.id := by
    rw [hid, ← hid']
    split <;> rfl
  rw [eq_of_key_eq hnd hr₀ hr hr₀id, if_pos hclaimable]
  intro h
  cases h

end Effects

end Steps

variable {n : Nat} {call : GatewayCall}

section Turns

variable (id : String) (w : World) {m' : Mode}

/-- The world after a statement of the store. -/
def World.query (w : World) (s : Statement) (c : Choice) : World :=
  { w with store := storeMachine.next w.store (s.input c) }

variable (s : Statement) (c : Choice)

theorem query_adrift (p : Statement → Bool) : (w.query s c).store.adrift.countP p
      = w.store.adrift.countP p + (if c.fate = .adrift ∧ p s = true then 1 else 0) := by
  obtain ⟨clock, fate⟩ := c
  cases fate with
  | adrift =>
    show (w.store.adrift ++ [s]).countP p = _
    simp
  | _ => simp [World.query, Mealy.next, Statement.input, storeMachine]

theorem query_invocations : (w.query s c).store.db.invocations = w.store.db.invocations ∨
      c.fate ≠ .adrift ∧ (w.query s c).store.db.invocations = (s.run c.clock w.store.db).2.invocations := by
  obtain ⟨clock, fate⟩ := c
  cases fate with
  | answered | lost => exact .inr ⟨by simp, rfl⟩
  | refused | adrift => exact .inl rfl

section

variable (hmode : modes[n]? = some (call, m))

include hmode

/-- The rights after the call `n` has changed its mode and the store has moved. -/
theorem rights_set (w' : World) (m' : Mode) :
    rights id w' (modes.set n (call, m')) + (if holdsRight id (call, m) then 1 else 0)
      = rights id w' modes + (if holdsRight id (call, m') then 1 else 0) := by
  have hcount := countP_set_add (p := holdsRight id) hmode (call, m')
  unfold rights
  omega

theorem creations_set (w' : World) (m' : Mode) :
    creations id w' (modes.set n (call, m')) + (if mayStore id (call, m) then 1 else 0)
      = creations id w' modes + (if mayStore id (call, m') then 1 else 0) := by
  have hcount := countP_set_add (p := mayStore id) hmode (call, m')
  unfold creations
  omega

theorem labels_set (m' : Mode) : labels id (modes.set n (call, m')) = labels id modes := by
  have hcount := countP_set_add (p := fun c => c.1.isCreate id) hmode (call, m')
  unfold labels
  dsimp only at hcount
  omega

theorem query_rights (m' : Mode) :
    rights id (w.query s c) (modes.set n (call, m')) + (if holdsRight id (call, m) then 1 else 0)
      = rights id w modes + (if c.fate = .adrift ∧ s.releases id = true then 1 else 0)
        + (if holdsRight id (call, m') then 1 else 0) := by
  have hset := rights_set id hmode (w.query s c) m'
  have hadrift := query_adrift w s c (releases id)
  have hsends : (w.query s c).sends id = w.sends id := rfl
  unfold rights at hset ⊢
  omega

theorem query_creations (m' : Mode) :
    creations id (w.query s c) (modes.set n (call, m')) + (if mayStore id (call, m) then 1 else 0)
      = creations id w modes + (if c.fate = .adrift ∧ s.inserts id = true then 1 else 0)
        + (if mayStore id (call, m') then 1 else 0) := by
  have hset := creations_set id hmode (w.query s c) m'
  have hadrift := query_adrift w s c (inserts id)
  unfold creations at hset ⊢
  omega

theorem set_mode : modes.set n (call, m) = modes := by
  obtain ⟨hn, hget⟩ := List.getElem?_eq_some_iff.mp hmode
  rw [← hget, set_getElem_self]

end

variable {id w s c}

theorem query_stored (h : (w.query s c).Stored id) : w.Stored id ∨ s.inserts id = true ∧ c.fate ≠ .adrift := by
  obtain ⟨r', hr', hid⟩ := h
  rcases query_invocations w s c with hsame | ⟨hfate, hrun⟩
  · exact .inl ⟨r', hsame ▸ hr', hid⟩
  · exact (run_stored (hrun ▸ hr') hid).imp_right fun h => ⟨h, hfate⟩

theorem query_waiting (h : (w.query s c).Waiting id) :
    w.Waiting id ∨ (s.releases id = true ∨ s.inserts id = true) ∧ c.fate ≠ .adrift := by
  obtain ⟨r', hr', hid, hstate⟩ := h
  rcases query_invocations w s c with hsame | ⟨hfate, hrun⟩
  · exact .inl ⟨r', hsame ▸ hr', hid, hstate⟩
  · exact (run_waiting (hrun ▸ hr') hid hstate).imp_right fun h => ⟨h, hfate⟩

theorem query_ids (hnd : (w.store.db.invocations.map (·.id)).Nodup) :
    ((w.query s c).store.db.invocations.map (·.id)).Nodup := by
  rcases query_invocations w s c with hsame | ⟨-, hrun⟩
  · rwa [hsame]
  · rw [hrun]
    exact (run_change s c.clock w.store.db).ids_nodup hnd

/-- A statement that neither stores nor releases the invocation, by a call whose standing towards it stays. -/
theorem query_kept (hmode : modes[n]? = some (call, m)) (hrelease : s.releases id = false)
    (hinsert : s.inserts id = false) (hholds : holdsRight id (call, m') = holdsRight id (call, m))
    (hstores : mayStore id (call, m') = mayStore id (call, m)) :
    RightsStep id w (w.query s c) modes (modes.set n (call, m')) := by
  have hr := query_rights id w s c hmode m'
  have hc := query_creations id w s c hmode m'
  rw [hrelease, hholds] at hr
  rw [hinsert, hstores] at hc
  simp only [Bool.false_eq_true, and_false, if_false] at hr hc
  refine .kept (by omega) (by omega) (fun h => ?_) fun h => ?_
  · exact (query_stored h).resolve_right (by simp [hinsert])
  · exact (query_waiting h).resolve_right (by simp [hinsert, hrelease])

/-- **A statement of the store, by a call that may perform it.** -/
theorem query_step (hnd : (w.store.db.invocations.map (·.id)).Nodup) (hmode : modes[n]? = some (call, m))
    (hallows : storeDiscipline.allows m s) :
    RightsStep id w (w.query s c) modes
      (modes.set n (call, storeDiscipline.after m s (storeMachine.out w.store (s.input c)))) := by
  cases s with
  | insert v hash =>
    obtain rfl := hallows
    show RightsStep id w (w.query _ c) modes (modes.set n (call, .free))
    have hr := query_rights id w (.insert v hash) c hmode .free
    have hc := query_creations id w (.insert v hash) c hmode .free
    by_cases hid : v.id = id
    · simp only [holdsRight, mayStore, releases, inserts, hid, decide_true, and_true,
        Bool.false_eq_true, and_false, if_false, if_true] at hr hc
      by_cases hfate : c.fate = .adrift
      · -- the `INSERT` is still to come, from adrift
        rw [if_pos hfate] at hc
        refine .kept (by omega) (by omega) (fun h => ?_) fun h => ?_
        · exact (query_stored h).resolve_right (by simp [hfate])
        · exact (query_waiting h).resolve_right (by simp [hfate])
      · rw [if_neg hfate] at hc
        exact .store (by omega) (by omega)
    · refine query_kept hmode rfl (decide_eq_false hid) rfl ?_
      exact (decide_eq_false hid).symm
  | claim owner connection i =>
    obtain rfl := hallows
    by_cases hreply : storeMachine.out w.store ((claim owner connection i).input c) = .affected 1
    · rw [hreply]
      show RightsStep id w (w.query _ c) modes (modes.set n (call, .holding owner connection i))
      by_cases hid : i = id
      · subst hid
        have hr := query_rights i w (.claim owner connection i) c hmode (.holding owner connection i)
        have hc := query_creations i w (.claim owner connection i) c hmode (.holding owner connection i)
        simp only [holdsRight, mayStore, releases, inserts, decide_true, Bool.false_eq_true,
          and_false, if_false, if_true] at hr hc
        -- only a statement that was answered replies with the number of rows
        obtain ⟨clock, fate⟩ := c
        cases fate with
        | answered =>
          obtain ⟨hwaiting, hgone⟩ := run_claimed hnd hreply
          refine .reserve (by omega) (by omega) hwaiting ?_
          rintro ⟨r', hr', hid', hstate⟩
          exact hgone r' hr' hid' hstate
        | refused | lost | adrift => cases hreply
      · exact query_kept hmode rfl rfl (decide_eq_false hid) rfl
    · rw [after_claim_ne hreply]
      exact query_kept hmode rfl rfl rfl rfl
  | release owner connection i =>
    obtain rfl := hallows
    show RightsStep id w (w.query _ c) modes (modes.set n (call, .free))
    by_cases hid : i = id
    · subst hid
      have hr := query_rights i w (.release owner connection i) c hmode .free
      have hc := query_creations i w (.release owner connection i) c hmode .free
      simp only [holdsRight, mayStore, releases, inserts, decide_true, and_true,
        Bool.false_eq_true, and_false, if_false, if_true] at hr hc
      by_cases hfate : c.fate = .adrift
      · -- the release has become one that is under way
        rw [if_pos hfate] at hr
        refine .kept (by omega) (by omega) (fun h => ?_) fun h => ?_
        · exact (query_stored h).resolve_right (by simp [hfate])
        · exact (query_waiting h).resolve_right (by simp [hfate])
      · rw [if_neg hfate] at hr
        exact .release (by omega) (by omega) fun h => (query_stored h).resolve_right (by simp [inserts])
    · exact query_kept hmode (decide_eq_false hid) rfl (decide_eq_false hid).symm rfl
  | acknowledge | deleteExpired | selectId | selectLiveId | expire | select | complete =>
    exact query_kept hmode rfl rfl rfl rfl

end Turns

/-! ## All gateways -/

theorem step_quiet (hstore : w'.store = w.store) (hsent : w'.sent = w.sent) : GatewayStep id w w' modes modes := by
  refine ⟨fun hnd => hstore ▸ hnd, .kept (le_of_eq ?_) (le_of_eq ?_) (fun h => ?_) fun h => ?_⟩
  · rw [creations, creations, hstore]
  · rw [rights, rights, World.sends, World.sends, hstore, hsent]
  · rwa [World.Stored, hstore] at h
  · rwa [World.Waiting, hstore] at h

theorem enqueue_step {owner session : String} {frame : InvokeFrame}
    (hmode : modes[n]? = some (call, .holding owner session frame.invocationId)) (c : GatewayChoice) :
    GatewayStep id w (gatewayMachine.next w (.statement (.enqueue session frame) c)) modes
      (modes.set n (call, gatewayDiscipline.after (.holding owner session frame.invocationId)
        (.enqueue session frame) (gatewayMachine.out w (.statement (.enqueue session frame) c)))) := by
  have hexec : gatewayMachine.exec w (.statement (.enqueue session frame) c)
      = (enqueueFrame w session frame).map .flag (fun w => w) := rfl
  rw [Mealy.next, Mealy.out, hexec]
  unfold enqueueFrame
  split
  · show GatewayStep id w w modes (modes.set n (call, .holding owner session frame.invocationId))
    rw [set_mode hmode]
    exact step_quiet rfl rfl
  split
  · -- the frame takes the place of the right
    show GatewayStep id w { w.updateSession session _ with sent := w.sent ++ [(session, frame)] } modes
      (modes.set n (call, .free))
    have hr := rights_set id hmode ({ w.updateSession session (fun s => { s with queued := s.queued + 1 }) with
        sent := w.sent ++ [(session, frame)] }) .free
    have hc := creations_set id hmode ({ w.updateSession session (fun s => { s with queued := s.queued + 1 }) with
        sent := w.sent ++ [(session, frame)] }) .free
    refine ⟨fun hnd => hnd, .kept ?_ ?_ (fun h => h) fun h => h⟩
    · simp only [mayStore, Bool.false_eq_true, if_false] at hc
      exact le_of_eq hc
    · simp only [holdsRight, rights, World.sends, World.updateSession, countP_append, countP_singleton,
        decide_eq_true_eq, Bool.false_eq_true, if_false] at hr ⊢
      omega
  · show GatewayStep id w (w.updateSession session _) modes
      (modes.set n (call, .holding owner session frame.invocationId))
    rw [set_mode hmode]
    exact step_quiet rfl rfl

/-- **A statement of a gateway, by a call that may perform it.** -/
theorem statement_step (hnd : (w.store.db.invocations.map (·.id)).Nodup) (hmode : modes[n]? = some (call, m))
    {st : GatewayStatement} (hallows : gatewayDiscipline.allows m st) (c : GatewayChoice) :
    GatewayStep id w (gatewayMachine.next w (.statement st c)) modes
      (modes.set n (call, gatewayDiscipline.after m st (gatewayMachine.out w (.statement st c)))) := by
  cases st with
  | store => exact ⟨query_ids, query_step hnd hmode hallows⟩
  | enqueue =>
    obtain ⟨owner, rfl⟩ := hallows
    exact enqueue_step hmode c
  | functionSessions | done | await | readAccepted | accept =>
    show GatewayStep id w _ modes (modes.set n (call, m))
    rw [set_mode hmode]
    exact step_quiet rfl rfl
  | register | dispatch | unregister =>
    show GatewayStep id w _ modes (modes.set n (call, m))
    rw [set_mode hmode]
    refine step_quiet ?_ ?_ <;>
      · simp only [Mealy.next, gatewayMachine, GatewayStatement.run, dispatchRequest]
        repeat' split
        all_goals rfl

/-- **What happens outside of the calls.** -/
theorem event_step (e : GatewayEvent) : GatewayStep id w (gatewayMachine.next w (.event e)) modes modes := by
  show GatewayStep id w (e.run w) modes modes
  cases e with
  | connect =>
    simp only [GatewayEvent.run]
    split <;> exact step_quiet rfl rfl
  | subscribe | close | write => exact step_quiet rfl rfl
  | acceptance =>
    simp only [GatewayEvent.run, handleAcceptance]
    repeat' split
    all_goals exact step_quiet rfl rfl
  | catalog => exact ⟨fun hnd => hnd, .kept le_rfl le_rfl (fun h => h) fun h => h⟩
  | arrive k clock =>
    simp only [GatewayEvent.run, Mealy.next, storeMachine]
    split
    next s hs =>
      refine ⟨(run_change s clock w.store.db).ids_nodup, ?_⟩
      -- the statement is adrift no longer, and has its effect
      have hreleases := countP_eraseIdx_add (p := releases id) hs
      have hinserts := countP_eraseIdx_add (p := inserts id) hs
      cases hi : s.inserts id with
      | true =>
        rw [hi, if_pos rfl] at hinserts
        refine .store ?_ ?_ <;>
          · simp only [creations, rights, World.sends]
            omega
      | false =>
        have hback : World.Stored { w with store :=
            { db := (s.run clock w.store.db).2, adrift := w.store.adrift.eraseIdx k } } id → w.Stored id := by
          rintro ⟨r', hr', hid⟩
          exact (run_stored hr' hid).resolve_right (by simp [hi])
        cases hr : s.releases id with
        | true =>
          rw [hr, if_pos rfl] at hreleases
          refine .release ?_ ?_ hback <;>
            · simp only [creations, rights, World.sends]
              omega
        | false =>
          refine .kept ?_ ?_ hback fun h => ?_
          · simp only [creations]
            omega
          · simp only [rights, World.sends]
            omega
          · obtain ⟨r', hr', hid, hstate⟩ := h
            exact (run_waiting hr' hid hstate).resolve_right (by simp [hi, hr])
    · exact step_quiet rfl rfl

/-- A call that starts has no right, and may store its invocation. -/
theorem Exclusive.start (h : Exclusive id w modes) (call : GatewayCall) :
    Exclusive id w (modes ++ [(call, call.mode)]) := by
  have hr : rights id w (modes ++ [(call, call.mode)]) = rights id w modes := by
    have hfree : holdsRight id (call, call.mode) = false := by cases call <;> rfl
    rw [rights, countP_append, countP_singleton, hfree]
    rfl
  have hc : creations id w (modes ++ [(call, call.mode)])
      = creations id w modes + (if call.isCreate id then 1 else 0) := by
    have hstores : mayStore id (call, call.mode) = call.isCreate id := by cases call <;> rfl
    rw [creations, creations, countP_append, countP_singleton, hstores]
    omega
  have hl : labels id (modes ++ [(call, call.mode)]) = labels id modes + (if call.isCreate id then 1 else 0) := by
    rw [labels, labels, countP_append, countP_singleton]
  have hfew := h.few
  refine ⟨h.ids, by omega, fun hw => ?_, fun hle => ?_, fun hle hw => ?_⟩
  · rw [hr] at hw
    have := h.spent hw
    omega
  · have := h.once (by omega)
    omega
  · have := h.none (by omega) hw
    omega

/-- The calls that create the invocation `id` in a run. -/
def createCalls (id : String) (turns : List (Turn GatewayCall GatewayEvent GatewayChoice)) : Nat :=
  (turns.filterMap Turn.started).countP (GatewayCall.isCreate id)

/-- The gateways after a run. -/
def gatewaysAfter (turns : List (Turn GatewayCall GatewayEvent GatewayChoice)) : World :=
  ((gateways E).run ⟨{}, []⟩ turns).shared

/-- **The invariant holds in every run.** -/
theorem reach_exclusive (id : String) (turns : List (Turn GatewayCall GatewayEvent GatewayChoice)) :
    ∃ modes, labels id modes = createCalls id turns ∧ Exclusive id (gatewaysAfter E turns) modes := by
  have hinit : Exclusive id {} [] := by
    refine ⟨nodup_nil, le_rfl, fun h => ?_, fun _ => Nat.zero_le 1, fun _ _ => rfl⟩
    rcases h with ⟨r, hr, -⟩ | hpos
    · cases hr
    · cases hpos
  obtain ⟨modes, -, hlabels, hexclusive⟩ := follows_run (I := Exclusive id) (P := ⟨{}, []⟩) turns
    (fun _ _ call _ h => h.start call)
    (fun w modes n call m st c hmode hallows _ h =>
      h.step (labels_set id hmode _) (statement_step h.ids hmode hallows c))
    (fun w modes e _ h => h.step rfl (event_step e))
    (fun call _ => call.follows E) .nil (Mealy.steps_of_forall _ fun _ _ => trivial) hinit
  refine ⟨modes, ?_, hexclusive⟩
  rw [createCalls, ← nil_append (turns.filterMap Turn.started), ← map_nil, ← hlabels, countP_map]
  rfl

/-! ## Repeated requests -/

section Requests

variable {r : Request}

/-- A request keeps its place and its acceptance, and an accepted one is not published again. -/
def Request.Succeeds (r r' : Request) : Prop :=
  r.accepted = true → r'.accepted = true ∧ r'.published = r.published

theorem set_request {requests : List Request} {k : Nat} {q q' : Request} (hq : requests[k]? = some q)
    (hsucceeds : q.Succeeds q') (h : requests[n]? = some r) :
    ∃ r', (requests.set k q')[n]? = some r' ∧ r.Succeeds r' := by
  by_cases hk : k = n
  · subst hk
    obtain rfl := Option.some.inj (hq.symm.trans h)
    exact ⟨q', List.getElem?_set_self (List.getElem?_eq_some_iff.mp hq).1, hsucceeds⟩
  · exact ⟨r, (List.getElem?_set_ne hk).trans h, fun haccepted => ⟨haccepted, rfl⟩⟩

theorem next_request (i : GatewayInput) (h : w.requests[n]? = some r) :
    ∃ r', (gatewayMachine.next w i).requests[n]? = some r' ∧ r.Succeeds r' := by
  have hsame : ∃ r', w.requests[n]? = some r' ∧ r.Succeeds r' := ⟨r, h, fun haccepted => ⟨haccepted, rfl⟩⟩
  cases i with
  | statement st c =>
    show ∃ r', (st.run w c).2.requests[n]? = some r' ∧ _
    cases st with
    | store | functionSessions | done | await | readAccepted | accept => exact hsame
    | enqueue =>
      simp only [GatewayStatement.run, enqueueFrame]
      repeat' split
      all_goals exact hsame
    | register =>
      simp only [GatewayStatement.run]
      split
      · exact hsame
      · refine ⟨r, ?_, fun haccepted => ⟨haccepted, rfl⟩⟩
        rw [List.getElem?_append_left (List.getElem?_eq_some_iff.mp h).1, h]
    | dispatch =>
      simp only [GatewayStatement.run, dispatchRequest]
      split
      · exact hsame
      next hq =>
      split
      · exact hsame
      next hnot =>
      -- only a request without an acceptance goes out
      repeat' split
      iterate 3 exact hsame
      exact set_request hq (fun haccepted => absurd haccepted hnot) h
    | unregister =>
      simp only [GatewayStatement.run]
      split
      next hq => exact set_request hq (fun haccepted => ⟨haccepted, rfl⟩) h
      · exact hsame
  | event e =>
    show ∃ r', (e.run w).requests[n]? = some r' ∧ _
    cases e with
    | arrive | catalog | subscribe | close | write => exact hsame
    | connect =>
      simp only [GatewayEvent.run]
      split <;> exact hsame
    | acceptance =>
      simp only [GatewayEvent.run, handleAcceptance]
      split
      · split
        next hq =>
          split
          · exact set_request hq (fun haccepted => ⟨by simp [haccepted], rfl⟩) h
          · exact hsame
        · exact hsame
      · exact hsame

theorem run_request (is : List GatewayInput) (h : w.requests[n]? = some r) (haccepted : r.accepted = true) :
    ∃ r', (gatewayMachine.run w is).requests[n]? = some r' ∧ r'.accepted = true ∧ r'.published = r.published := by
  induction is generalizing w r with
  | nil => exact ⟨r, h, haccepted, rfl⟩
  | cons i is ih =>
    obtain ⟨r₁, h₁, hsucceeds⟩ := next_request i h
    obtain ⟨haccepted₁, hpublished₁⟩ := hsucceeds haccepted
    obtain ⟨r', h', haccepted', hpublished'⟩ := ih h₁ haccepted₁
    exact ⟨r', h', haccepted', hpublished'.trans hpublished₁⟩

end Requests

/-- **A function call reaches at most one handler**, in every interleaving of the calls of all gateways. -/
theorem invocation_reaches_one (E : FunctionEnv) (turns : List (Turn GatewayCall GatewayEvent GatewayChoice)) :
    -- an invocation whose id is created once is enqueued at most once
    (∀ id, createCalls id turns ≤ 1 → (gatewaysAfter E turns).sends id ≤ 1) ∧
    -- once an acceptance has been seen the request is not published again
    (∀ before after, turns = before ++ after → ∀ (n : Nat) (r : Request),
      (gatewaysAfter E before).requests[n]? = some r →
      r.accepted = true → ∃ r' : Request, (gatewaysAfter E turns).requests[n]? = some r' ∧ r'.accepted = true ∧
        r'.published = r.published) := by
  refine ⟨fun id hfresh => ?_, ?_⟩
  · obtain ⟨modes, hlabels, hexclusive⟩ := reach_exclusive E id turns
    have honce := hexclusive.once (hlabels ▸ hfresh)
    exact le_trans (Nat.le_add_left _ _) honce
  · rintro before after rfl n r h haccepted
    have hshared : gatewaysAfter E (before ++ after) = gatewayMachine.run (gatewaysAfter E before)
        (inputs gatewayMachine (GatewayCall.program E) .statement .event
          ((gateways E).run ⟨{}, []⟩ before) after) := by
      rw [gatewaysAfter, Mealy.run_append]
      exact run_shared gatewayMachine (GatewayCall.program E) .statement .event _ after
    rw [hshared]
    exact run_request _ h haccepted

/-! ## A sample -/

/-- The call `n` performs its next statement, and the reply arrives. -/
def gatewayStep (n : Nat) : Turn GatewayCall GatewayEvent GatewayChoice :=
  .step n ⟨10, .answered, false, false, false, .timer⟩

def sampleFrame : InvokeFrame := ⟨"inv_1", "resize", "\x7b\x7d", 5000000⟩

/-- Two gateways race for an invocation: the second one tries to reserve it before the first one sends. -/
def raceTurns : List (Turn GatewayCall GatewayEvent GatewayChoice) :=
  [.outside (.catalog [⟨"fn_1", "app_1", true⟩] [⟨"app_1", true⟩, ⟨"app_2", true⟩]),
    .outside (.connect ⟨"gw_1", "conn_1", "app_1", true, false, 0⟩),
    .outside (.connect ⟨"gw_2", "conn_2", "app_1", true, false, 0⟩),
    .start (.create sampleInvocation "key-1"), gatewayStep 0, gatewayStep 0,
    .start (.invoke "gw_1" "app_1" sampleFrame), .start (.invoke "gw_2" "app_1" sampleFrame),
    gatewayStep 1, gatewayStep 2, gatewayStep 1, gatewayStep 2, gatewayStep 1, gatewayStep 2,
    gatewayStep 1, gatewayStep 2, gatewayStep 1, gatewayStep 2, gatewayStep 1, gatewayStep 1]

theorem invocation_reaches_one_race : (gatewaysAfter sampleEnv raceTurns).sends "inv_1" = 1 :=
  le_antisymm ((invocation_reaches_one sampleEnv raceTurns).1 "inv_1" (by decide)) (by decide)

end RelayHub.Functions
