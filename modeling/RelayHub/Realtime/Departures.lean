import RelayHub.Lib.Mealy
import RelayHub.Lib.Table
import RelayHub.Realtime.Calls

/-! # RelayHub realtime — departures

The presence index of a channel holds connections, each with the time at which it expires. Three scripts take
entries out of it. The hub announces the connection it deletes and those that `expirePresenceScript` reports. -/

namespace RelayHub.Realtime

open List Program

/-- A script on the index, with the clock it is given. -/
inductive PresenceStep where
  | upsert (connectionId : String) (ttl clock : Int)
  | delete (connectionId : String) (clock : Int)
  /-- The reply of the script may not arrive. -/
  | expire (limit : Nat) (clock : Int) (lost : Bool)

def PresenceStep.eval (members : List (String × Int)) : PresenceStep → RedisReply × List RedisValue
  | .upsert connectionId ttl clock =>
    (RedisOp.upsertPresence "" "" connectionId ttl).eval (fun _ _ _ => true) clock 0 [.missing, .sortedSet members]
  | .delete connectionId clock =>
    (RedisOp.deletePresence "" "" connectionId).eval (fun _ _ _ => true) clock 0 [.missing, .sortedSet members]
  | .expire limit clock _ =>
    (RedisOp.expirePresence "" limit).eval (fun _ _ _ => true) clock 0 [.sortedSet members]

/-- The frames that `Close` and `ReconcilePresence` dispatch after a script, each with its connection. -/
def PresenceStep.frames : PresenceStep → RedisReply → List (FrameType × String)
  | .delete connectionId _, _ => [(.presenceLeave, connectionId)]
  | .expire _ _ false, .expired connections _ => connections.map fun c => (.presenceTimeout, c)
  | _, _ => []

def presenceIndex : Mealy (List (String × Int)) PresenceStep (List (FrameType × String)) where
  exec members step :=
    let r := step.eval members
    (step.frames r.1, (r.2.getLast?.bind RedisValue.toMembers).getD [])

/-- What a call publishes, if its statements get these replies. -/
def departures (reply : Statement → Reply) (call : HubM Unit) : List (FrameType × String) :=
  (call.statements reply).filterMap fun
    | .publish _ frame => some (frame.type, frame.publisherConnectionId)
    | _ => none

/-- **The frames are what the calls publish**, in a bridged hub whose sessions have names. -/
theorem calls_frames {E : Env} {p : Peer} {app : AppId} {gateway channel key : String} {n : Nat} {clock : Int}
    {connections : List String} {reply : Statement → Reply} (hbridged : E.bridged = true)
    (hchannel : validRealtimeChannel channel = true) :
    (p.clientId ≠ "" → p.id ≠ "" → ∀ r,
      departures reply (leaveChannel E p (channel, n)) = (PresenceStep.delete p.id clock).frames r) ∧
    (E.presenceStore = true → E.keys.realtimePresenceIndex app channel = some key →
      reply (.isSubscribed gateway app channel) = .flag true →
      reply (.redis (.expirePresence key 100)) = .redis (.expired connections n) → "" ∉ connections →
      departures reply (reconcilePresence E gateway app channel) =
        (PresenceStep.expire 100 clock false).frames (.expired connections n)) := by
  have hstamp : stamp.statements reply = [.stamp] := by
    rw [stamp, statements_bind]
    split <;> rfl
  have hdispatch : ∀ gateway app frame, validV2Delivery E.encodings app frame = true →
      (dispatchV2 E gateway app frame).statements reply = [.publish app frame] := by
    intro gateway app frame hvalid
    rw [dispatchV2, if_pos hbridged, publishRealtimeV2, if_neg (by simp [hvalid]), flag, statements_bind]
    split <;> rfl
  refine ⟨fun hclient hid r => ?_, fun hstore hkey hsubscribed hreply hids => ?_⟩
  · have hleave : ∀ s ∈ (leavePresence E p channel).statements reply, ∃ op, s = .redis op := by
      -- only Redis is asked
      unfold leavePresence deletePresence redis
      grind [statements_bind, statements_perform, statements_pure]
    simp [departures, leaveChannel, hdispatch, hstamp, PresenceStep.frames, validV2Delivery, presenceFrame, hchannel,
      hclient, hid]
    grind
  · simp [departures, reconcilePresence, flag, hsubscribed, hstore, hkey, hreply, redis, PresenceStep.frames]
    clear hreply
    -- a round of the loop is one frame
    induction connections with
    | nil => rfl
    | cons c connections ih =>
      obtain ⟨hc, hids⟩ := not_or.mp (mt mem_cons.mpr hids)
      simpa [hdispatch, hstamp, validV2Delivery, presenceFrame, hchannel, Ne.symm hc] using ih hids

/-- One frame for every connection that the step takes out. -/
def Announced (t : Transition (List (String × Int)) PresenceStep (List (FrameType × String))) : Prop :=
  ∀ c ∈ t.pre.map Prod.fst, c ∉ t.post.map Prod.fst → t.output.countP (·.2 = c) = 1

/-- The step takes out nothing that it does not report. -/
def PresenceStep.spares (members : List (String × Int)) : PresenceStep → Prop
  | .upsert connectionId _ clock | .delete connectionId clock =>
    ∀ m ∈ members, m.2 ≤ clock / 1000 → m.1 = connectionId
  | .expire limit clock lost => lost = true → limit = 0 ∨ ∀ m ∈ members, clock / 1000 < m.2

section

variable {members after : List (String × Int)} (hnd : (members.map Prod.fst).Nodup)

include hnd

/-- A script that prunes for `c` announces `c` at most, so it must not find anybody else expired. -/
theorem prune_announced_iff {now : Int} {c : String} {frames : List (FrameType × String)}
    (hafter : ∀ m, m.1 ≠ c → (m ∈ after ↔ m ∈ members ∧ now < m.2)) (hframes : ∀ f ∈ frames, f.2 = c)
    (hself : c ∉ after.map Prod.fst → frames.countP (·.2 = c) = 1) :
    (∀ x ∈ members.map Prod.fst, x ∉ after.map Prod.fst → frames.countP (·.2 = x) = 1) ↔
      ∀ m ∈ members, m.2 ≤ now → m.1 = c := by
  constructor
  · intro hannounced m hm hexpired
    by_contra hne
    have hgone : m.1 ∉ after.map Prod.fst := by
      intro hmem
      obtain ⟨m', hm', hkey⟩ := mem_map.mp hmem
      obtain ⟨hstored, hlive⟩ := (hafter m' (hkey ▸ hne)).mp hm'
      rw [inj_on_of_nodup_map hnd hstored hm hkey] at hlive
      omega
    have hone := hannounced m.1 (mem_map_of_mem hm) hgone
    obtain ⟨f, hf, hkey⟩ := countP_pos_iff.mp (hone ▸ Nat.one_pos)
    exact hne ((of_decide_eq_true hkey).symm.trans (hframes f hf))
  · intro hspared x hx hgone
    by_cases hself' : x = c
    · exact hself' ▸ hself (hself' ▸ hgone)
    · obtain ⟨m, hm, rfl⟩ := mem_map.mp hx
      have hlive : now < m.2 := not_le.mp fun hexpired => hself' (hspared m hm hexpired)
      exact absurd (mem_map_of_mem ((hafter m hself').mpr ⟨hm, hlive⟩)) hgone

theorem announced_iff (step : PresenceStep) :
    Announced ⟨members, step, presenceIndex.out members step, presenceIndex.next members step⟩ ↔
      step.spares members := by
  cases step with
  | upsert connectionId ttl clock =>
    refine prune_announced_iff hnd (fun m hm => ?_) (fun f hf => by cases hf) fun hgone => ?_
    · show m ∈ (dropScored (clock / 1000) members).filter (·.1 ≠ connectionId) ++ [_] ↔ _
      simp [dropScored, hm, Prod.ext_iff]
    · exact absurd (mem_map_of_mem (mem_append_right _ (mem_singleton_self _))) hgone
  | delete connectionId clock =>
    refine prune_announced_iff hnd (fun m hm => ?_) (fun f hf => ?_) fun _ =>
      by simp [Mealy.out, presenceIndex, PresenceStep.frames]
    · show m ∈ dropScored (clock / 1000) (members.filter (·.1 ≠ connectionId)) ↔ _
      simp [dropScored, hm]
    · rw [mem_singleton.mp hf]
  | expire limit clock lost =>
    let due := (members.filter fun m => m.2 ≤ clock / 1000).insertionSort fun a b => a.2 ≤ b.2
    have hperm : due.Perm (members.filter fun m => m.2 ≤ clock / 1000) := perm_insertionSort _ _
    have hnodup : ((due.take limit).map Prod.fst).Nodup :=
      ((hperm.map _).nodup_iff.mpr (hnd.sublist (filter_sublist.map _))).sublist ((take_sublist _ _).map _)
    have hgone : ∀ m ∈ members, (m.1 ∉ (presenceIndex.next members (.expire limit clock lost)).map Prod.fst ↔
        m.1 ∈ (due.take limit).map Prod.fst) := by
      intro m hm
      show m.1 ∉ (members.filter fun m => !((due.take limit).map Prod.fst).contains m.1).map Prod.fst ↔ _
      generalize (due.take limit).map Prod.fst = expired
      constructor
      · intro hgone
        by_contra hkept
        exact hgone (mem_map_of_mem (mem_filter.mpr ⟨hm, by simpa using hkept⟩))
      · intro hexpired hkept
        obtain ⟨m', hm', hkey⟩ := mem_map.mp hkept
        simp [hkey, hexpired] at hm'
    cases lost with
    | false =>
      refine iff_of_true (fun x hx hx' => ?_) (fun h => by cases h)
      obtain ⟨m, hm, rfl⟩ := mem_map.mp hx
      show (((due.take limit).map Prod.fst).map fun c => (FrameType.presenceTimeout, c)).countP (·.2 = m.1) = 1
      rw [countP_map]
      exact count_eq_one_of_mem hnodup ((hgone m hm).mp hx')
    | true =>
      refine ⟨fun h _ => ?_, fun h x hx hx' => ?_⟩
      · by_contra hnot
        obtain ⟨hlimit, m, hm, hexpired⟩ : limit ≠ 0 ∧ ∃ m ∈ members, m.2 ≤ clock / 1000 := by simpa using hnot
        have hm' : m ∈ due := hperm.mem_iff.mpr (mem_filter.mpr ⟨hm, decide_eq_true hexpired⟩)
        -- the first that is due leaves, and there is no frame
        obtain ⟨d, hd⟩ := exists_mem_of_ne_nil (due.take limit) (by simp [hlimit, ne_nil_of_mem hm'])
        have hstored : d ∈ members := (mem_filter.mp (hperm.mem_iff.mp (mem_of_mem_take hd))).1
        cases h d.1 (mem_map_of_mem hstored) ((hgone d hstored).mpr (mem_map_of_mem hd))
      · obtain ⟨m, hm, rfl⟩ := mem_map.mp hx
        obtain ⟨d, hd, -⟩ := mem_map.mp ((hgone m hm).mp hx')
        obtain ⟨hstored, hexpired⟩ := mem_filter.mp (hperm.mem_iff.mp (mem_of_mem_take hd))
        rcases h rfl with rfl | hlive
        · cases hd
        · exact absurd (of_decide_eq_true hexpired) (not_le.mpr (hlive d hstored))

theorem nodup_next (step : PresenceStep) : ((presenceIndex.next members step).map Prod.fst).Nodup := by
  cases step with
  | upsert connectionId ttl clock =>
    refine Table.nodup_keys_concat (hnd.sublist ((filter_sublist.trans filter_sublist).map _)) fun m hm => ?_
    exact of_decide_eq_true (mem_filter.mp hm).2
  | delete connectionId clock => exact hnd.sublist ((filter_sublist.trans filter_sublist).map _)
  | expire limit clock lost => exact hnd.sublist (filter_sublist.map _)

end

theorem departures_announced_iff (steps : List PresenceStep) :
    (∀ t ∈ presenceIndex.transitions [] steps, Announced t) ↔
      ∀ t ∈ presenceIndex.transitions [] steps, t.input.spares t.pre := by
  refine forall₂_congr fun t ht => ?_
  obtain ⟨before, -, -, hpre, hout, hpost⟩ := presenceIndex.exists_split_of_mem_transitions ht
  have hnd : (t.pre.map Prod.fst).Nodup := by
    rw [hpre]
    exact presenceIndex.run_induction (P := fun members => (members.map Prod.fst).Nodup) (s := []) nodup_nil
      (fun _ step h => nodup_next h step) before
  rw [← announced_iff hnd, ← hout, ← hpost]

/-- A connection stays away past its time; another one joins, and its script drops the first without a word. -/
theorem join_drops_expired : ∃ t ∈ presenceIndex.transitions []
    [.upsert "conn_1" 60000000 0, .upsert "conn_2" 60000000 61000000], ∃ c ∈ t.pre.map Prod.fst,
      c ∉ t.post.map Prod.fst ∧ t.output = [] := by
  decide

end RelayHub.Realtime
