import Mathlib.Data.List.TakeWhile
import RelayHub.Lib.Mealy

/-! # RelayHub Rust backend — history and live messages of a subscription

A publisher appends a message to the history and then publishes it. A subscribe frame with a cursor subscribes and then
reads the history after the cursor. It does not flush in between, so the server may process the subscription later than
that. `Rewind` is such a frame on one channel, together with the publishers. -/

namespace RelayHub.Rust

open List

/-- A message to all, with the number that INCR has given it; live frames have no number. -/
structure V2Message where
  seq : Int
  messageId : Nat
  /-- The data or the encryption, as JSON. -/
  body : String
  deriving DecidableEq

structure Rewind where
  history : List V2Message := []
  /-- The server has processed the subscription. -/
  subscribed : Bool := false
  /-- The items of the history result. -/
  result : Option (List V2Message) := none
  /-- What the broker has delivered to the subscription task. -/
  delivered : List V2Message := []
  /-- How much of it is on the connection. -/
  sent : Nat := 0

inductive RewindOp where
  /-- RPUSH in `v2_publish`. -/
  | rpush (m : V2Message)
  /-- LTRIM. -/
  | ltrim (m : V2Message)
  /-- The broker gets the message. -/
  | publish (m : V2Message)
  | subscribe
  /-- `v2_history`. -/
  | read
  /-- The subscription task and the loop send a message. -/
  | forward
  deriving DecidableEq

def RewindOp.message : RewindOp → Option V2Message
  | .rpush m | .ltrim m | .publish m => some m
  | _ => none

/-- The end of `v2_publish`. -/
def v2Publish (m : V2Message) : List RewindOp := [.rpush m, .ltrim m, .publish m]

/-- The items of `v2_history`. -/
def v2History (cursor : Int) (limit : Nat) (history : List V2Message) : List V2Message :=
  (history.filter fun m => cursor < m.seq).take (max 1 (min limit 100))

def Rewind.step (cursor : Int) (limit : Nat) (s : Rewind) : RewindOp → Rewind
  | .rpush m => { s with history := s.history ++ [m] }
  | .ltrim _ => { s with history := s.history.drop (s.history.length - 1000) }
  | .publish m => { s with delivered := s.delivered ++ if s.subscribed then [m] else [] }
  | .subscribe => { s with subscribed := true }
  | .read => { s with result := s.result.or (some (v2History cursor limit s.history)) }
  | .forward => { s with sent := min (s.sent + 1) s.delivered.length }

def rewind (cursor : Int) (limit : Nat) : Mealy Rewind RewindOp Unit where
  exec s op := ((), s.step cursor limit op)

/-- The messages for the channel on the connection. -/
def Rewind.frames (s : Rewind) : List V2Message := s.result.getD [] ++ s.delivered.take s.sent

/-- The publishers run `v2_publish`, each for a message of its own. -/
def Interleaves (run : List RewindOp) : Prop := ∀ m, run.filter (·.message = some m) <+: v2Publish m

/-- Before the read no message after the cursor is trimmed, and the limit covers those in the history. -/
def Rewind.Covers (cursor : Int) (limit : Nat) (s : Rewind) : RewindOp → Prop
  | .ltrim _ => s.result = none → ∀ m ∈ s.history.take (s.history.length - 1000), m.seq ≤ cursor
  | .read => s.result = none → s.history.countP (fun m => cursor < m.seq) ≤ max 1 (min limit 100)
  | _ => True

/-- The first step comes before the second one. -/
def Precedes (run : List RewindOp) (a b : RewindOp) : Prop := a ∈ run.takeWhile (· ≠ b)

instance (run : List RewindOp) (a b : RewindOp) : Decidable (Precedes run a b) :=
  inferInstanceAs (Decidable (a ∈ _))

theorem takeWhile_ne_concat (b op : RewindOp) (run : List RewindOp) :
    (run ++ [op]).takeWhile (· ≠ b) = run.takeWhile (· ≠ b) ++ if b ∈ run ∨ op = b then [] else [op] := by
  induction run with
  | nil => by_cases h : op = b <;> simp [h]
  | cons a run ih =>
    by_cases h : a = b
    · simp [h]
    · simp only [cons_append, takeWhile_cons, h, ne_eq, not_false_eq_true, decide_true, if_true, ih, mem_cons,
        Ne.symm h, false_or]

/-- What the state tells of a message after the cursor. -/
structure Rewind.Tracks (m : V2Message) (s : Rewind) (run : List RewindOp) : Prop where
  subscribed : s.subscribed = true ↔ .subscribe ∈ run
  read : s.result = none ↔ .read ∉ run
  history : s.result = none → s.history.count m = run.count (.rpush m)
  items : ∀ items ∈ s.result, items.count m = (run.takeWhile (· ≠ .read)).count (.rpush m)
  delivered : s.delivered.count m + (run.takeWhile (· ≠ .subscribe)).count (.publish m) = run.count (.publish m)

variable {cursor : Int} {limit : Nat} {s : Rewind} {m : V2Message} {run : List RewindOp}

theorem count_v2History (hm : cursor < m.seq) {history : List V2Message}
    (h : history.countP (fun m => cursor < m.seq) ≤ max 1 (min limit 100)) :
    (v2History cursor limit history).count m = history.count m := by
  rw [v2History, take_of_length_le (countP_eq_length_filter ▸ h), count_filter (by simpa using hm)]

theorem Rewind.Tracks.step (h : s.Tracks m run) (hm : cursor < m.seq) (op : RewindOp)
    (hop : s.Covers cursor limit op) : (s.step cursor limit op).Tracks m (run ++ [op]) := by
  have hread (op : RewindOp) : ∀ items ∈ s.result,
      items.count m = ((run ++ [op]).takeWhile (· ≠ .read)).count (.rpush m) := by
    intro items hs
    have hmem : .read ∈ run := by
      by_contra hno
      rw [h.read.mpr hno] at hs
      cases hs
    rw [takeWhile_ne_concat, if_pos (.inl hmem), append_nil, h.items items hs]
  have hsubscribed (op : RewindOp) (hne : op ≠ .publish m) :
      s.delivered.count m + ((run ++ [op]).takeWhile (· ≠ .subscribe)).count (.publish m) =
        (run ++ [op]).count (.publish m) := by
    have hcount : count (.publish m) [op] = 0 := count_eq_zero_of_not_mem fun hmem => hne (mem_singleton.mp hmem).symm
    rw [takeWhile_ne_concat, count_append, count_append, hcount, ← h.delivered]
    split
    · rfl
    · rw [hcount, Nat.add_zero, Nat.add_zero]
  cases op with
  | rpush x =>
    refine ⟨by simp [Rewind.step, h.subscribed], by simp [Rewind.step, h.read], fun hs => ?_, hread _,
      hsubscribed _ nofun⟩
    simp [Rewind.step, h.history hs, count_singleton]
  | ltrim x =>
    unfold Rewind.step
    refine ⟨by simp [h.subscribed], by simp [h.read], fun hs => ?_, hread _, hsubscribed _ nofun⟩
    have hno : m ∉ s.history.take (s.history.length - 1000) := fun hmem => absurd (hop hs m hmem) (by omega)
    have hcount := congrArg (count m) (take_append_drop (s.history.length - 1000) s.history)
    rw [count_append, count_eq_zero_of_not_mem hno, Nat.zero_add, h.history hs] at hcount
    simp [hcount]
  | publish x =>
    refine ⟨by simp [Rewind.step, h.subscribed], by simp [Rewind.step, h.read], fun hs => ?_, hread _, ?_⟩
    · simp [Rewind.step, h.history hs]
    · change (s.delivered ++ if s.subscribed then [x] else []).count m + _ = _
      rw [takeWhile_ne_concat]
      by_cases hs : .subscribe ∈ run
      · simp [h.subscribed.mpr hs, hs, ← h.delivered, count_singleton]
        omega
      · simp [mt h.subscribed.mp hs, hs, ← h.delivered, Nat.add_assoc]
  | subscribe =>
    refine ⟨by simp [Rewind.step], by simp [Rewind.step, h.read], fun hs => ?_, hread _, hsubscribed _ nofun⟩
    simp [Rewind.step, h.history hs]
  | read =>
    refine ⟨by simp [Rewind.step, h.subscribed], by simp [Rewind.step], by simp [Rewind.step], ?_,
      hsubscribed _ nofun⟩
    cases hresult : s.result with
    | some items =>
      simpa [Rewind.step, hresult] using hread .read items hresult
    | none =>
      rintro items hs
      obtain rfl : v2History cursor limit s.history = items := by simpa [Rewind.step, hresult] using hs
      have hno := h.read.mp hresult
      rw [count_v2History hm (hop hresult), h.history hresult, takeWhile_ne_concat, if_pos (.inr rfl), append_nil,
        takeWhile_eq_self_iff.mpr fun op hop => decide_eq_true (ne_of_mem_of_not_mem hop hno)]
  | forward =>
    refine ⟨by simp [Rewind.step, h.subscribed], by simp [Rewind.step, h.read], fun hs => ?_, hread _,
      hsubscribed _ nofun⟩
    simp [Rewind.step, h.history hs]

theorem run_tracks_message (hm : cursor < m.seq)
    (h : (rewind cursor limit).Steps (fun s op _ => s.Covers cursor limit op) {} run) :
    ((rewind cursor limit).run {} run).Tracks m run := by
  induction run using List.reverseRecOn with
  | nil => exact ⟨by simp, by simp, fun _ => rfl, nofun, rfl⟩
  | append_singleton run op ih =>
    obtain ⟨h, hop⟩ := Mealy.steps_concat.mp h
    rw [Mealy.run_concat]
    exact (ih h).step hm op hop

/-- A message that is published is appended once and published once. -/
theorem Interleaves.count_eq_one (h : Interleaves run) (hm : .publish m ∈ run) :
    run.count (.rpush m) = 1 ∧ run.count (.publish m) = 1 := by
  have hfilter : run.filter (·.message = some m) = v2Publish m := by
    have hpublish : .publish m ∈ run.filter (·.message = some m) := mem_filter.mpr ⟨hm, by simp [RewindOp.message]⟩
    have hprefix : _ <+: [RewindOp.rpush m, .ltrim m] ++ [.publish m] := h m
    refine (prefix_concat_iff.mp hprefix).resolve_right fun hshort => ?_
    simpa using hshort.subset hpublish
  have hcount (op : RewindOp) (hop : op.message = some m) : run.count op = (v2Publish m).count op := by
    rw [← hfilter, count_filter (by simpa using hop)]
  exact ⟨by rw [hcount _ rfl]; simp [v2Publish], by rw [hcount _ rfl]; simp [v2Publish]⟩

/-- **History and live messages.** Once the result is sent and everything delivered is on the
connection, a message after the cursor that was published is there exactly once exactly if it was
appended before the history was read just when it was published before the server had processed the
subscription. -/
theorem rewind_joins (hcalls : Interleaves run)
    (hcovers : (rewind cursor limit).Steps (fun s op _ => s.Covers cursor limit op) {} run) (hread : .read ∈ run)
    (hsent : ((rewind cursor limit).run {} run).sent = ((rewind cursor limit).run {} run).delivered.length)
    (hpublished : .publish m ∈ run) (hm : cursor < m.seq) :
    ((rewind cursor limit).run {} run).frames.count m = 1 ↔
      (Precedes run (.rpush m) .read ↔ Precedes run (.publish m) .subscribe) := by
  have htracks := run_tracks_message hm hcovers
  generalize (rewind cursor limit).run {} run = s at hsent htracks ⊢
  obtain ⟨happended, hcount⟩ := hcalls.count_eq_one hpublished
  obtain ⟨items, hitems⟩ := Option.ne_none_iff_exists'.mp (mt htracks.read.mp (not_not.mpr hread))
  have hle := (takeWhile_sublist (fun op => decide (op ≠ .read)) (l := run)).count_le (.rpush m)
  have hframes : s.frames.count m = (run.takeWhile (· ≠ .read)).count (.rpush m) + s.delivered.count m := by
    rw [Rewind.frames, hsent, take_length, count_append, hitems, Option.getD_some, htracks.items items hitems]
  have hdelivered := htracks.delivered
  rw [Precedes, Precedes, ← count_pos_iff, ← count_pos_iff, hframes]
  omega

/-- One message is read, the other one delivered. -/
def readAndDelivered : List RewindOp :=
  [.rpush ⟨1, 7, "a"⟩, .ltrim ⟨1, 7, "a"⟩, .publish ⟨1, 7, "a"⟩, .subscribe, .read, .rpush ⟨2, 8, "b"⟩,
    .ltrim ⟨2, 8, "b"⟩, .publish ⟨2, 8, "b"⟩, .forward]

theorem rewind_joins_both : ((rewind 0 50).run {} readAndDelivered).frames.count ⟨2, 8, "b"⟩ = 1 := by
  refine (rewind_joins ?_ ?_ (by decide) (by decide) (by decide) (by decide)).mpr (by decide)
  · intro m
    by_cases ha : m = ⟨1, 7, "a"⟩
    · subst ha
      decide
    · by_cases hb : m = ⟨2, 8, "b"⟩
      · subst hb
        decide
      · simp [readAndDelivered, RewindOp.message, Ne.symm ha, Ne.symm hb]
  · exact ⟨trivial, fun _ => by decide, trivial, trivial, fun _ => by decide, trivial, nofun, trivial, trivial, trivial⟩

/-- **A message is sent twice** that is published between the subscription and the read. -/
theorem rewound_and_delivered : ((rewind 0 50).run {}
    [.subscribe, .rpush ⟨1, 7, "a"⟩, .ltrim ⟨1, 7, "a"⟩, .publish ⟨1, 7, "a"⟩, .read, .forward]).frames =
      [⟨1, 7, "a"⟩, ⟨1, 7, "a"⟩] := by
  decide

end RelayHub.Rust
