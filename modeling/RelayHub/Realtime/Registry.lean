import RelayHub.Realtime.Calls

/-! # RelayHub realtime — the connection registry

The registry record of a connection names the channels of its session. The reader writes it after every change and
`refreshRegistry` on every tick. Both read the channels under the lock of the hub and write them later. Here every
write succeeds; one that fails closes the session. -/

namespace RelayHub.Realtime

/-- The channels of the session. -/
def World.channels (w : World) (p : Peer) : List String :=
  (((w.session? p).elim [] (·.topics)).filterMap fun
    | .channel channel => some channel
    | _ => none).eraseDups

def normalizedChannels (channels : List String) : List String := channels.insertionSort (· ≤ ·)

structure Registration where
  world : World
  /-- The channels of the record. -/
  stored : List String := []
  /-- A frame is being handled, with what `persistChannels` has read for it. -/
  handling : Option (Option (List String)) := none
  /-- What `refreshRegistry` has read and not written yet. -/
  refreshing : Option (List String) := none

namespace Registration

inductive Step where
  /-- The section of `subscribeV2`. -/
  | subscribe (channels : List String) (rewind : Bool)
  /-- The section of `UnsubscribeV2`. -/
  | unsubscribe (channels : List String)
  /-- The section of `persistChannels`. -/
  | read
  /-- `UpdateChannels`. -/
  | update
  /-- The section of `refreshRegistry`. -/
  | tick
  /-- `Refresh`. -/
  | refresh

/-- The statement that a step stands for. -/
def Step.statement (p : Peer) : Step → Statement
  | .subscribe channels rewind => .subscribeV2 p channels rewind
  | .unsubscribe channels => .unsubscribeV2 p channels
  | .read => .isActive p
  | .tick => .presenceOf p
  | .update | .refresh => .registry p

/-- **The steps are what the calls do.** An accepted frame is a section, a read and a write; a tick is a read and a
write, and then the presence of the session. -/
theorem calls_steps {p : Peer} {E : Env} {channels : List String} {rewind : Bool} {reply : Statement → Reply}
    (hv2 : p.v2 = true) (hregistry : E.registry = true) (hvalid : validateChannels channels = none)
    (hactive : reply (.isActive p) = .flag true) (hstored : reply (.registry p) = .flag true) :
    (reply (.subscribeV2 p channels rewind) = .checked none → (subscribeV2 E p channels rewind).statements reply =
      [Step.subscribe channels rewind, .read, .update].map (Step.statement p)) ∧
    (reply (.unsubscribeV2 p channels) = .checked none → (unsubscribeV2 E p channels).statements reply =
      [Step.unsubscribe channels, .read, .update].map (Step.statement p)) ∧
    ∀ presence, reply (.presenceOf p) = .present (some presence) →
      [Step.tick, .refresh].map (Step.statement p) <+: (refreshRegistry E p).statements reply := by
  have hpersist : (persistChannels E p).statements reply = [.isActive p, .registry p] ∧
      (persistChannels E p).result reply = true := by
    simp [persistChannels, flag, hactive, hstored, hregistry, hv2]
  refine ⟨fun haccepted => ?_, fun haccepted => ?_, fun presence hpresence => ?_⟩
  · simp [subscribeV2, checked, hvalid, haccepted, hpersist, Step.statement]
  · simp [unsubscribeV2, checked, hvalid, haccepted, hpersist, Step.statement]
  · simp [refreshRegistry, flag, hpresence, hstored, Step.statement]

variable (p : Peer) (r : Registration)

/-- A frame that is not refused goes through its section. -/
def enter (channels : List String) (result : Option ProtocolError × World) : Registration :=
  if r.handling.isSome || (validateChannels channels).isSome || result.1.isSome then r
  else { r with world := result.2, handling := some none }

/-- What is read under the lock, of an active session only. -/
def snapshot : Option (List String) := if r.world.isActive p then some (r.world.channels p) else none

def next : Step → Registration
  | .subscribe channels rewind => r.enter channels (subscribeSection r.world p channels rewind)
  | .unsubscribe channels => r.enter channels (unsubscribeSection r.world p channels)
  | .read => if r.handling = some none then { r with handling := (r.snapshot p).map some } else r
  | .update =>
    match r.handling with
    | some (some channels) => { r with stored := normalizedChannels channels, handling := none }
    | _ => r
  | .tick => if r.refreshing = none then { r with refreshing := r.snapshot p } else r
  | .refresh =>
    match r.refreshing with
    | some channels => { r with stored := normalizedChannels channels, refreshing := none }
    | none => r

/-- `register`. -/
def start : Registration where
  world := (Event.connect p).run {}

def machine : Mealy Registration Step Unit := ⟨fun r i => ((), r.next p i)⟩

/-- Between two frames the record has the channels of the session. -/
def Follows : Prop :=
  r.world.isActive p = true → r.handling = none → r.stored = normalizedChannels (r.world.channels p)

/-- What a refresh writes between two frames is what the session has. -/
def Current : Step → Prop
  | .refresh => r.world.isActive p = true → r.handling = none → ∀ channels, r.refreshing = some channels →
      normalizedChannels channels = normalizedChannels (r.world.channels p)
  | _ => True

/-- No frame changes the channels between the read and the write of another. -/
structure Inv : Prop where
  follows : r.Follows p
  read : ∀ channels, r.handling = some (some channels) → channels = r.world.channels p

variable {p r}

theorem Inv.enter (h : r.Inv p) (channels : List String) (result : Option ProtocolError × World) :
    (r.enter channels result).Inv p := by
  unfold Registration.enter
  split
  · exact h
  · exact ⟨fun _ => nofun, nofun⟩

theorem Inv.next (h : r.Inv p) (i : Step) (hi : r.Current p i) : (r.next p i).Inv p := by
  cases i with
  | subscribe | unsubscribe => exact h.enter _ _
  | read =>
    simp only [Registration.next, snapshot]
    split
    · by_cases hactive : r.world.isActive p = true
      · rw [if_pos hactive]
        exact ⟨fun _ => nofun, fun channels heq => by cases heq; rfl⟩
      · exact ⟨fun h => absurd h hactive, by simp [hactive]⟩
    · exact h
  | update =>
    simp only [Registration.next]
    split
    next channels hread =>
      refine ⟨fun _ _ => ?_, nofun⟩
      rw [h.read channels hread]
    · exact h
  | tick =>
    simp only [Registration.next]
    split
    · exact ⟨h.follows, h.read⟩
    · exact h
  | refresh =>
    simp only [Registration.next]
    split
    next channels hread => exact ⟨fun hactive hidle => hi hactive hidle channels hread, h.read⟩
    · exact h

/-- What a late refresh writes does not follow. -/
theorem Follows.current {i : Step} (h : (r.next p i).Follows p) : r.Current p i := by
  cases i with
  | refresh =>
    intro hactive hidle channels hread
    simp only [Registration.next, hread] at h
    exact h hactive hidle
  | _ => trivial

end Registration

open Registration

/-- **The registry follows the subscriptions as long as no refresh comes late.** It does so in every state of a run
exactly if every refresh that is written between two frames writes what the session has at that time. -/
theorem registry_follows_iff (p : Peer) (steps : List Step) :
    (∀ k, ((machine p).stateAt (start p) steps k).Follows p) ↔
      (machine p).Steps (fun r i _ => r.Current p i) (start p) steps := by
  have hstart : (start p).Inv p := by
    refine ⟨fun _ _ => ?_, nofun⟩
    simp only [start, Event.run]
    split <;> simp [World.channels, World.session?, normalizedChannels]
  exact Mealy.law_iff_steps hstart (fun _ h => h.follows) (fun _ i h => h.next i)
    fun _ _ _ hlate hfollows => hlate hfollows.current

/-- The refresh has read the channels before the client subscribes and writes them after it. -/
theorem refresh_loses_channel :
    let p := samplePeer sampleApp
    let r := (machine p).run (start p) [.tick, .subscribe ["ops"] false, .read, .update, .refresh]
    r.handling = none ∧ r.world.isActive p = true ∧ r.world.channels p = ["ops"] ∧ r.stored = [] := by
  decide

end RelayHub.Realtime
