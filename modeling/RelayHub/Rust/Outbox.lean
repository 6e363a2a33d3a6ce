import RelayHub.Lib.Mealy
import RelayHub.Rust.Rows

/-! # RelayHub Rust backend — the outbox

One delivery on its way through the outbox: replicas publish it (`dispatch_outbox`), others take the message from the
broker and acknowledge it when the delivery is terminal (`reconcile_message`), and other transactions update its row,
to whatever values. Each step of a replica is an event, and after any of them it may stop.

The transaction of `dispatch_outbox` keeps the row locked from its SELECT … FOR UPDATE SKIP LOCKED to its end, so one
replica at a time is in it and no other transaction commits meanwhile. -/

namespace RelayHub.Rust

/-- Where `dispatch_outbox` is, once it has the rows. -/
inductive Phase where
  | selected
  /-- The broker has acknowledged the publication. -/
  | published
  /-- `sent_at` is set and not committed. -/
  | written
  deriving DecidableEq

/-- Where `reconcile_message` is. -/
inductive Routing where
  | idle
  | received (m : Nat)
  /-- The delivery is terminal, so the message will be acknowledged. -/
  | confirmed (m : Nat)
  deriving DecidableEq

structure Routed where
  row : Row
  /-- `sent_at` and `discarded_at` are set. -/
  sent : Bool
  discarded : Bool
  /-- The messages that the broker has accepted, and which of them are acknowledged. -/
  broker : List Bool
  dispatcher : Option (Nat × Phase)
  routing : Nat → Routing
  /-- The messages that were sent and have not reached the broker. -/
  late : Nat := 0

inductive Event where
  | update (new : Row) (now : Int)
  | select (replica : Nat) (now : Int)
  /-- The message may be stored although no acknowledgement is seen, and is not stored again if one with its id was. -/
  | publish (replica : Nat) (stored acknowledged : Bool)
  /-- A message reaches the broker when its publisher no longer waits for it. -/
  | arrive
  | markSent (replica : Nat)
  | commit (replica : Nat)
  /-- The transaction of the replica fails, or the replica stops. -/
  | fail (replica : Nat)
  | receive (replica m : Nat)
  /-- `clock` is read when the row is locked, and `retryAt` is the end of the attempt with the delay of a retry. -/
  | reconcile (replica : Nat) (now clock retryAt : Int)
  | acknowledge (replica : Nat)
  | stop (replica : Nat)

/-- An UPDATE of the row. The trigger discards the outbox row when the delivery becomes terminal. -/
def Routed.write (s : Routed) (now : Int) (new : Row) : Option Routed :=
  (accountUpdate now s.row new).map fun row => { s with
    row
    discarded := s.discarded || !s.sent && s.row.terminalAt.isNone && row.terminalAt.isSome }

def second : Int := 1000000

def Row.leaseLive (row : Row) (t : Int) : Bool :=
  row.leaseExpiresAt.any (fun l => t < l) && row.attemptStartedAt.any (fun started => t < started + 300 * second)

def maxAttempts : Nat := 5

/-- `finish_attempt` for a lease that has expired. -/
def Row.lapsed (row : Row) (retryAt : Int) : Row :=
  if row.attemptCount ≥ maxAttempts then { row with state := .dlq, nextAttemptAt := none }
  else { row with state := .retryWait, nextAttemptAt := some retryAt }

/-- `reconcile`: the delivery after it, and whether it is terminal. -/
def Routed.reconcile (s : Routed) (now clock retryAt : Int) : Option (Routed × Bool) :=
  if s.row.terminalAt = none ∧ s.row.expiresAt ≤ clock then
    (s.write now { s.row with state := .expired }).map (·, true)
  else if s.row.terminalAt = none ∧ s.row.state = .inFlight ∧ s.row.leaseLive clock = false then
    (s.write now (s.row.lapsed retryAt)).map (·, decide (s.row.attemptCount ≥ maxAttempts))
  else some (s, s.row.terminalAt.isSome)

def Routed.setRouting (s : Routed) (replica : Nat) (r : Routing) : Routed :=
  { s with routing := Function.update s.routing replica r }

def Routed.next (s : Routed) : Event → Routed
  | .update new now => if s.dispatcher = none then (s.write now new).getD s else s
  | .select k now =>
    if s.dispatcher = none ∧ s.sent = false ∧ s.discarded = false ∧ s.row.terminalAt = none ∧
        now < s.row.expiresAt then
      { s with dispatcher := some (k, .selected) }
    else s
  | .publish k stored acknowledged =>
    if s.dispatcher = some (k, .selected) then
      let broker := if stored then s.broker ++ [false] else s.broker
      { s with
        broker
        late := if stored then s.late else s.late + 1
        dispatcher := if acknowledged ∧ broker ≠ [] then some (k, .published) else none }
    else s
  | .arrive => if s.late = 0 then s else { s with broker := s.broker ++ [false], late := s.late - 1 }
  | .markSent k => if s.dispatcher = some (k, .published) then { s with dispatcher := some (k, .written) } else s
  | .commit k => if s.dispatcher = some (k, .written) then { s with dispatcher := none, sent := true } else s
  | .fail k => if s.dispatcher.any (·.1 = k) then { s with dispatcher := none } else s
  | .receive j m => if s.routing j = .idle ∧ s.broker[m]? = some false then s.setRouting j (.received m) else s
  | .reconcile j now clock retryAt =>
    match s.routing j, s.dispatcher with
    | .received m, none =>
      match s.reconcile now clock retryAt with
      | some (s, terminal) => s.setRouting j (if terminal then .confirmed m else .idle)
      | none => s.setRouting j .idle
    | _, _ => s
  | .acknowledge j =>
    match s.routing j with
    | .confirmed m => { s with broker := s.broker.set m true }.setRouting j .idle
    | _ => s
  | .stop j => s.setRouting j .idle

def router : Mealy Routed Event Unit := ⟨fun s e => ((), s.next e)⟩

/-! ## No delivery is lost -/

abbrev Routed.Terminal (s : Routed) : Prop := s.row.terminalAt ≠ none

/-- A message is acknowledged, or an outbox row discarded, only for a terminal delivery; and one is accepted before the
outbox row is sent. -/
structure Kept (s : Routed) : Prop where
  coherent : s.row.Coherent
  acknowledged : true ∈ s.broker → s.Terminal
  discarded : s.discarded = true → s.Terminal
  confirmed : ∀ j m, s.routing j = .confirmed m → s.Terminal
  published : ∀ k p, s.dispatcher = some (k, p) → p ≠ .selected → s.broker ≠ []
  sent : s.sent = true → s.broker ≠ []

variable {s s' : Routed}

/-- An UPDATE leaves a terminal delivery terminal. -/
theorem Kept.write (hs : Kept s) {now : Int} {new : Row} (h : s.write now new = some s') :
    Kept s' ∧ s'.row.state = new.state := by
  obtain ⟨row, hrow, rfl⟩ := Option.map_eq_some_iff.mp h
  obtain ⟨hcoherent, -, hstate, hkept⟩ := accountUpdate_eq_some hrow hs.coherent
  have hterminal : s.Terminal → row.terminalAt ≠ none := by
    intro hold
    have hold := hs.coherent.terminalAt_ne_none.mp hold
    exact hcoherent.terminalAt_ne_none.mpr ((hkept hold).symm ▸ hold)
  refine ⟨⟨hcoherent, fun h => hterminal (hs.acknowledged h), fun hdiscarded => ?_,
    fun j m hj => hterminal (hs.confirmed j m hj), hs.published, hs.sent⟩, hstate⟩
  rcases Bool.or_eq_true_iff.mp hdiscarded with hold | hnew
  · exact hterminal (hs.discarded hold)
  · exact Option.isSome_iff_ne_none.mp (Bool.and_eq_true_iff.mp hnew).2

theorem Kept.setRouting (hs : Kept s) (j : Nat) {r : Routing} (hr : ∀ m, r = .confirmed m → s.Terminal) :
    Kept (s.setRouting j r) where
  coherent := hs.coherent
  acknowledged := hs.acknowledged
  discarded := hs.discarded
  confirmed i m hi := by
    by_cases hij : i = j
    · subst hij
      exact hr m ((Function.update_self ..).symm.trans hi)
    · exact hs.confirmed i m ((Function.update_of_ne hij ..).symm.trans hi)
  published := hs.published
  sent := hs.sent

/-- What `reconcile` returns is right. -/
theorem Kept.reconcile (hs : Kept s) {now clock retryAt : Int} {terminal : Bool}
    (h : s.reconcile now clock retryAt = some (s', terminal)) :
    Kept s' ∧ (terminal = true → s'.Terminal) := by
  unfold Routed.reconcile at h
  split at h
  next hexpired =>
    obtain ⟨s₁, hwrite, heq⟩ := Option.map_eq_some_iff.mp h
    cases heq
    obtain ⟨hkept, hstate⟩ := hs.write hwrite
    exact ⟨hkept, fun _ => hkept.coherent.terminalAt_ne_none.mpr (hstate ▸ rfl)⟩
  split at h
  next hlapsed =>
    obtain ⟨s₁, hwrite, heq⟩ := Option.map_eq_some_iff.mp h
    cases heq
    obtain ⟨hkept, hstate⟩ := hs.write hwrite
    refine ⟨hkept, fun hlast => hkept.coherent.terminalAt_ne_none.mpr ?_⟩
    rw [hstate, Row.lapsed, if_pos (of_decide_eq_true hlast)]
    rfl
  next =>
    cases h
    exact ⟨hs, Option.isSome_iff_ne_none.mp⟩

theorem Kept.next (hs : Kept s) (e : Event) : Kept (s.next e) := by
  cases e with
  | update new now =>
    simp only [Routed.next]
    split
    next =>
      cases hwrite : s.write now new with
      | none => exact hs
      | some => exact (hs.write hwrite).1
    next => exact hs
  | select =>
    simp only [Routed.next]
    split
    · refine { hs with published := fun k' p hp hne => ?_ }
      obtain ⟨-, rfl⟩ := Prod.mk.inj (Option.some.inj hp)
      exact absurd rfl hne
    · exact hs
  | publish k stored acknowledged =>
    simp only [Routed.next]
    split
    · generalize hb : (if stored = true then s.broker ++ [false] else s.broker) = broker
      have hmem : true ∈ broker → true ∈ s.broker := by
        rw [← hb]
        split <;> simp
      have hne : s.broker ≠ [] → broker ≠ [] := by
        rw [← hb]
        split <;> simp
      refine { hs with acknowledged := fun h => hs.acknowledged (hmem h), published := fun k' p hp _ => ?_,
                       sent := fun h => hne (hs.sent h) }
      split at hp
      next hack => exact hack.2
      · cases hp
    · exact hs
  | arrive =>
    simp only [Routed.next]
    split
    · exact hs
    · exact { hs with acknowledged := fun h => hs.acknowledged (by simpa using h)
                      published := fun _ _ _ _ => by simp, sent := fun _ => by simp }
  | markSent k =>
    simp only [Routed.next]
    split
    next hp => exact { hs with published := fun _ _ _ _ => hs.published k .published hp nofun }
    · exact hs
  | commit k =>
    simp only [Routed.next]
    split
    next hp => exact { hs with published := nofun, sent := fun _ => hs.published k .written hp nofun }
    · exact hs
  | fail =>
    simp only [Routed.next]
    split
    · exact { hs with published := nofun }
    · exact hs
  | receive j =>
    simp only [Routed.next]
    split
    · exact hs.setRouting j nofun
    · exact hs
  | reconcile j =>
    simp only [Routed.next]
    split
    next m hj hd =>
      split
      next hrun =>
        obtain ⟨hkept, hterminal⟩ := hs.reconcile hrun
        refine hkept.setRouting j fun m' hm => ?_
        split at hm
        next hyes => exact hterminal hyes
        · cases hm
      · exact hs.setRouting j nofun
    · exact hs
  | acknowledge j =>
    simp only [Routed.next]
    split
    next m hj =>
      have hkept : Kept { s with broker := s.broker.set m true } := by
        have hne : s.broker ≠ [] → s.broker.set m true ≠ [] := by simp
        exact { hs with acknowledged := fun _ => hs.confirmed j m hj
                        published := fun k p hp hp' => hne (hs.published k p hp hp'), sent := fun h => hne (hs.sent h) }
      exact hkept.setRouting j nofun
    · exact hs
  | stop j => exact hs.setRouting j nofun

/-- A delivery that was just accepted. -/
structure Accepted (s : Routed) : Prop where
  coherent : s.row.Coherent
  outbox : s.sent = false ∧ s.discarded = false ∧ s.broker = []
  replicas : s.dispatcher = none ∧ ∀ j, s.routing j = .idle

/-- **No routed delivery is lost.** In every state it is terminal, or its outbox row is neither sent nor
discarded, or the broker holds a message for it that is not acknowledged. -/
theorem no_delivery_lost (hs : Accepted s) (events : List Event) :
    (router.run s events).Terminal ∨
      (router.run s events).sent = false ∧ (router.run s events).discarded = false ∨
        ∃ m : Nat, (router.run s events).broker[m]? = some false := by
  have hkept : Kept (router.run s events) := by
    refine router.run_induction ?_ (fun s e hs => hs.next e) events
    obtain ⟨hcoherent, ⟨hsent, hdiscarded, hbroker⟩, hdispatcher, hrouting⟩ := hs
    exact ⟨hcoherent, by simp [hbroker], by simp [hdiscarded], by simp [hrouting],
      by simp [hdispatcher], by simp [hsent]⟩
  generalize router.run s events = s' at hkept
  by_cases hterminal : s'.Terminal
  · exact .inl hterminal
  cases hdiscarded : s'.discarded with
  | true => exact absurd (hkept.discarded hdiscarded) hterminal
  | false =>
    cases hsent : s'.sent with
    | false => exact .inr (.inl ⟨rfl, rfl⟩)
    | true =>
      -- a message was accepted, and none is acknowledged
      obtain ⟨x, rest, hbroker⟩ := List.exists_cons_of_ne_nil (hkept.sent hsent)
      cases x with
      | true => exact absurd (hkept.acknowledged (by simp [hbroker])) hterminal
      | false => exact .inr (.inr ⟨0, by simp [hbroker]⟩)

def sampleRouted : Routed :=
  ⟨{ id := 1, eventId := 2, workspaceId := 3, appId := 4, generation := 1, payloadBytes := 10, expiresAt := 100 },
    false, false, [], none, fun _ => .idle, 0⟩

theorem no_delivery_lost_sample : Accepted sampleRouted ∧
    ((router.run sampleRouted [.select 0 0, .publish 0 true true, .markSent 0, .commit 0]).Terminal ∨
      (router.run sampleRouted [.select 0 0, .publish 0 true true, .markSent 0, .commit 0]).sent = false ∧
        (router.run sampleRouted [.select 0 0, .publish 0 true true, .markSent 0, .commit 0]).discarded = false ∨
      ∃ m : Nat, (router.run sampleRouted [.select 0 0, .publish 0 true true, .markSent 0,
        .commit 0]).broker[m]? = some false) :=
  have haccepted : Accepted sampleRouted := ⟨rfl, ⟨rfl, rfl, rfl⟩, rfl, fun _ => rfl⟩
  ⟨haccepted, no_delivery_lost haccepted _⟩

end RelayHub.Rust
