import RelayHub.Queue.Producers

/-! # RelayHub queue — the scheduler

`QueueScheduler.runOnce` claims the schedules that are due and then completes them one by one. Several
replicas run it at once; each may stop between any two of its steps, and keeps the items it claimed until
then. The system below interleaves these steps with every other operation of the queue.

An occurrence fires at most once because its row in `queue_schedule_occurrences` stays; a completion counts
only under the latest claim because an update of the schedule, a later claim and a completion each replace
or drop the token. -/

namespace RelayHub.Queue

open List Table Function

/-! ## Replicas -/

/-- The ids of the due schedules that no other transaction has locked (`FOR UPDATE OF q SKIP LOCKED`). -/
def dueUnlocked (db : QueueDb) (now : Int) (locked : List String) (limit : Nat) : List String :=
  (((db.schedules.filter fun q => q.due db now && !locked.contains q.id).insertionSort fun a b =>
    a.nextRunAt < b.nextRunAt ∨ a.nextRunAt = b.nextRunAt ∧ a.id ≤ b.id).take limit).map ScheduleRow.id

def claimRow (now claimUntil : Int) (token : String) (q : ScheduleRow) : ScheduleRow :=
  { q with
    claim := some (token, claimUntil)
    claimGeneration := q.claimGeneration + 1
    updatedAt := now }

/-- `ClaimDueQueueSchedules` while other transactions hold `locked`. -/
def claimUnlocked (now claimUntil : Int) (token : String) (limit : Nat) (locked : List String)
    (db : QueueDb) : List ScheduleRow × QueueDb :=
  let claimed : ScheduleRow → Bool := fun q => (dueUnlocked db now locked limit).contains q.id
  ((db.schedules.filter claimed).map (claimRow now claimUntil token),
    { db with schedules := updateWhere claimed (claimRow now claimUntil token) db.schedules })

/-- `time.LoadLocation`, `queueCronParser.Parse` and `Next`: the next run of an expression in a timezone after
an instant, unless the expression or the timezone does not parse. -/
abbrev Cron := String → String → Int → Option Int

/-- The operations that only replicas perform. -/
def QueueOp.isScheduling : QueueOp → Bool
  | .claimSchedules .. | .completeSchedule .. => true
  | _ => false

inductive SchedulerOp where
  /-- Anything else that happens to the queue. -/
  | queue (op : QueueOp) (h : op.isScheduling = false)
  /-- A replica starts a round. -/
  | claim (replica : Nat) (now : Int) (token : String) (locked : List String)
  /-- It completes the next item of the round. -/
  | complete (replica : Nat) (now : Int)
  | crash (replica : Nat)

inductive SchedulerOut where
  | queue (out : QueueOut)
  | claimed (items : List ScheduleRow)
  | completed
  | failed (e : StoreError)
  | stopped

structure SchedulerState where
  db : QueueDb := {}
  /-- The items of a replica's round that are still to be completed. -/
  work : Nat → List ScheduleRow := fun _ => []

section

variable (D : Digests)

/-- The arguments `runOnce` passes to `CompleteQueueSchedule`. -/
def itemCompletion (item : ScheduleRow) (next now : Int) : QueueScheduleCompletion :=
  occurrenceCompletion D item.id ((item.claim.map Prod.fst).getD "") item.claimGeneration item.nextRunAt next now

variable (cron : Cron)

/-- One step of a replica, or of the rest of the system. An error ends the round. -/
def schedulerExec (s : SchedulerState) : SchedulerOp → SchedulerOut × SchedulerState
  | .queue op _ => (.queue (exec D s.db op).1, { s with db := (exec D s.db op).2 })
  | .claim replica now token locked =>
    let (items, db) := claimUnlocked now (now + 15 * second) token 32 locked s.db
    (.claimed items, { db, work := Function.update s.work replica items })
  | .complete replica now =>
    match s.work replica with
    | [] => (.stopped, s)
    | item :: rest =>
      match cron item.cronExpression item.timezone item.nextRunAt with
      | none => (.stopped, { s with work := Function.update s.work replica [] })
      | some next =>
        match completeQueueSchedule (itemCompletion D item next now) s.db with
        | .error e => (.failed e, { s with work := Function.update s.work replica [] })
        | .ok db => (.completed, { db, work := Function.update s.work replica rest })
  | .crash replica => (.stopped, { s with work := Function.update s.work replica [] })

def scheduler : Mealy SchedulerState SchedulerOp SchedulerOut where
  exec := schedulerExec D cron

/-! ## Completions -/

/-- The occurrence has its row in `queue_schedule_occurrences`. -/
def Recorded (db : QueueDb) (scheduleId : String) (occurrence : Int) : Prop :=
  ∃ o ∈ db.occurrences, o.scheduleId = scheduleId ∧ o.scheduledAt = occurrence

/-- What an accepted completion of the schedule `q` does. -/
structure Completes (c : QueueScheduleCompletion) (q : ScheduleRow) (db db' : QueueDb) : Prop where
  stored : q ∈ db.schedules
  claimed : q.claimedBy c = true
  schedules : db'.schedules = updateWhere (ScheduleRow.claimedBy c) (advanceRow c) db.schedules
  occurrences : ∃ new, db'.occurrences = db.occurrences ++ new
  recorded : Recorded db' c.scheduleId c.occurrenceAt
  created : db'.events = db.events ∧ db'.deliveries = db.deliveries ∨ ¬ Recorded db c.scheduleId c.occurrenceAt ∧
      (∃ new, db'.events = db.events ++ new ∧ new.length ≤ 1) ∧
      ∃ new, db'.deliveries = db.deliveries ++ new ∧ new.length ≤ 1

theorem insertDelivery_length {rows rows' : List DeliveryRow} {row : DeliveryRow}
    (h : insertDelivery rows row = .ok rows') : ∃ new, rows' = rows ++ new ∧ new.length ≤ 1 := by
  unfold insertDelivery at h
  split at h
  · cases h
    exact ⟨[], by simp, by simp⟩
  · split at h
    · cases h
    · cases h
      exact ⟨[row], rfl, le_refl 1⟩

theorem insertIgnore_length {α κ : Type*} [DecidableEq κ] (key : α → κ) (rows : List α) (row : α) :
    ∃ new, insertIgnore key rows row = rows ++ new ∧ new.length ≤ 1 := by
  unfold insertIgnore
  split
  · exact ⟨[], by simp, by simp⟩
  · exact ⟨[row], rfl, le_refl 1⟩

theorem completeQueueSchedule_ok {c : QueueScheduleCompletion} {db db' : QueueDb}
    (h : completeQueueSchedule c db = .ok db') : ∃ q, Completes c q db db' := by
  obtain ⟨q, sub, db₁, hq, -, -, hoccurrence, rfl⟩ := completeQueueSchedule_inv h
  have hclaimed := find?_some hq
  have hid : q.id = c.scheduleId := by
    simp only [ScheduleRow.claimedBy, Bool.and_eq_true, decide_eq_true_eq] at hclaimed
    exact hclaimed.1.1
  refine ⟨q, ?_⟩
  rcases hoccurrence with ⟨hany, rfl⟩ | ⟨hnone, hinsert⟩
  · obtain ⟨o, ho, hkey⟩ := any_eq_true.mp hany
    rw [Bool.and_eq_true, decide_eq_true_eq, decide_eq_true_eq, hid] at hkey
    exact ⟨mem_of_find?_eq_some hq, hclaimed, rfl, ⟨[], by simp⟩, ⟨o, ho, hkey⟩, .inl ⟨rfl, rfl⟩⟩
  · obtain ⟨deliveries, hdeliveries, rfl⟩ := insertOccurrence_ok hinsert
    refine ⟨mem_of_find?_eq_some hq, hclaimed, rfl, ⟨_, rfl⟩, ⟨_, mem_append_right _ mem_cons_self, hid, rfl⟩,
      .inr ⟨?_, insertIgnore_length _ _ _, insertDelivery_length hdeliveries⟩⟩
    rintro ⟨o, ho, hkey⟩
    rw [any_eq_false] at hnone
    exact hnone o ho (by simpa [hid] using hkey)

/-! ## What a step does to the schedules -/

/-- What a step writes to `queue_schedules` and `queue_schedule_occurrences`. -/
inductive ScheduleCase (D : Digests) (cron : Cron) (s : SchedulerState) :
    SchedulerOp → SchedulerOut → QueueDb → Prop
  | quiet {op : SchedulerOp} {out : SchedulerOut} {db' : QueueDb}
      (schedules : db'.schedules = s.db.schedules) (occurrences : db'.occurrences = s.db.occurrences)
      (hclaimed : ∀ items, out ≠ .claimed items)
      (hupdated : ∀ item version h, op = .queue (.updateSchedule item version) h → out ≠ .queue .done) :
      ScheduleCase D cron s op out db'
  | create (item q : ScheduleRow) {h} (hid : q.id = item.id) (hclaim : q.claim = none)
      (hfresh : ∀ r ∈ s.db.schedules, r.id ≠ item.id) :
      ScheduleCase D cron s (.queue (.createSchedule item) h) (.queue .done)
        { s.db with schedules := s.db.schedules ++ [q] }
  | update (item : ScheduleRow) {version : Int} {h} (target : ScheduleRow → Bool)
      (htarget : ∀ q, target q = true → q.id = item.id) (hstored : ∃ q ∈ s.db.schedules, target q = true) :
      ScheduleCase D cron s (.queue (.updateSchedule item version) h) (.queue .done)
        { s.db with schedules := updateWhere target (updateScheduleRow item) s.db.schedules }
  | claim (replica : Nat) (now : Int) (token : String) (locked : List String) :
      ScheduleCase D cron s (.claim replica now token locked)
        (.claimed (claimUnlocked now (now + 15 * second) token 32 locked s.db).1)
        (claimUnlocked now (now + 15 * second) token 32 locked s.db).2
  | complete {replica : Nat} {now : Int} (item : ScheduleRow) {next : Int} {q : ScheduleRow} {db' : QueueDb}
      (hdone : Completes (itemCompletion D item next now) q s.db db') :
      ScheduleCase D cron s (.complete replica now) .completed db'

theorem queue_schedules_cases (s : SchedulerState) {op : QueueOp} (hop : op.isScheduling = false) :
    ScheduleCase D cron s (.queue op hop) (.queue (exec D s.db op).1) (exec D s.db op).2 := by
  have hquiet : op.writesSchedules = false → ScheduleCase D cron s (.queue op hop)
      (.queue (exec D s.db op).1) (exec D s.db op).2 := by
    intro hwrites
    have hframe := exec_frame D s.db op
    refine .quiet (hframe.schedules hwrites) (hframe.occurrences hwrites) (fun _ h => by cases h) ?_
    intro item version _ hupdate
    obtain rfl := SchedulerOp.queue.inj hupdate
    cases hwrites
  cases op with
  | createSchedule item =>
    simp only [exec]
    cases hcreate : createQueueSchedule item s.db with
    | error => exact .quiet rfl rfl (fun _ h => by cases h) (fun _ _ _ h => by cases h)
    | ok =>
      obtain ⟨q, hid, hclaim, hfresh, rfl⟩ := createQueueSchedule_ok hcreate
      exact .create item q hid hclaim hfresh
  | updateSchedule item version =>
    simp only [exec]
    cases hupdate : updateQueueSchedule item version s.db with
    | error =>
      refine .quiet rfl rfl (fun _ h => by cases h) fun _ _ _ _ hout => ?_
      cases hout
    | ok =>
      obtain ⟨target, htarget, hstored, rfl⟩ := updateQueueSchedule_ok hupdate
      exact .update item target htarget hstored
  | claimSchedules | completeSchedule => cases hop
  | _ => exact hquiet rfl

theorem complete_cases (s : SchedulerState) (replica : Nat) (now : Int) :
    (((scheduler D cron).next s (.complete replica now)).db = s.db ∧
      (scheduler D cron).out s (.complete replica now) ≠ .completed ∧
      ∀ items, (scheduler D cron).out s (.complete replica now) ≠ .claimed items) ∨
    ∃ item rest next q, s.work replica = item :: rest ∧
      cron item.cronExpression item.timezone item.nextRunAt = some next ∧
      (scheduler D cron).out s (.complete replica now) = .completed ∧
      Completes (itemCompletion D item next now) q s.db ((scheduler D cron).next s (.complete replica now)).db := by
  simp only [Mealy.next, Mealy.out, scheduler, schedulerExec]
  split
  · exact .inl ⟨rfl, (fun h => by cases h), fun _ h => by cases h⟩
  next item rest hwork =>
  split
  · exact .inl ⟨rfl, (fun h => by cases h), fun _ h => by cases h⟩
  next next hnext =>
  split
  · exact .inl ⟨rfl, (fun h => by cases h), fun _ h => by cases h⟩
  next hcomplete =>
    obtain ⟨q, hdone⟩ := completeQueueSchedule_ok hcomplete
    exact .inr ⟨item, rest, next, q, hwork, hnext, rfl, hdone⟩

theorem schedule_cases (s : SchedulerState) (op : SchedulerOp) :
    ScheduleCase D cron s op ((scheduler D cron).out s op) ((scheduler D cron).next s op).db := by
  cases op with
  | queue op hop => exact queue_schedules_cases D cron s hop
  | claim replica now token locked => exact .claim replica now token locked
  | complete replica now =>
    rcases complete_cases D cron s replica now with ⟨hdb, -, hclaimed⟩ | ⟨item, rest, next, q, -, -, hout, hdone⟩
    · exact .quiet (by rw [hdb]) (by rw [hdb]) hclaimed (fun _ _ _ h => by cases h)
    · rw [hout]
      exact .complete item hdone
  | crash => exact .quiet rfl rfl (fun _ h => by cases h) (fun _ _ _ h => by cases h)

end

/-! ## Claims

A stored claim was made by the last claim of its schedule, and nothing has updated the schedule since. -/

variable {D : Digests} {cron : Cron} {s : SchedulerState}

section Claims

variable {q item : ScheduleRow} {ops : List SchedulerOp} {replica : Nat}

/-- The step does not claim the schedule and does not update it. -/
def Untouched (id : String) (t : Transition SchedulerState SchedulerOp SchedulerOut) : Prop :=
  (∀ items, t.output = .claimed items → ∀ i ∈ items, i.id ≠ id) ∧
    ∀ item version h, t.input = .queue (.updateSchedule item version) h → item.id = id → t.output ≠ .queue .done

/-- **A claim is stored by a claim step, or it stood before the step and the step does not touch the
schedule.** -/
theorem step_claim (hnd : (s.db.schedules.map (·.id)).Nodup) (op : SchedulerOp)
    (hq : q ∈ ((scheduler D cron).next s op).db.schedules) (hclaim : q.claim ≠ none) :
    (q ∈ s.db.schedules ∧ Untouched q.id ⟨s, op, (scheduler D cron).out s op, (scheduler D cron).next s op⟩) ∨
    ∃ replica now token locked items, op = .claim replica now token locked ∧
      (scheduler D cron).out s op = .claimed items ∧ q ∈ items := by
  have hcase := schedule_cases D cron s op
  generalize (scheduler D cron).next s op = s', (scheduler D cron).out s op = out at hcase hq
  obtain ⟨db', work⟩ := s'
  cases hcase with
  | quiet hschedules _ hclaimed hupdated =>
    rw [hschedules] at hq
    exact .inl ⟨hq, fun items h => absurd h (hclaimed items),
      fun item version h hinput _ => hupdated item version h hinput⟩
  | create item r hid hnone =>
    rcases mem_append.mp hq with hq | hq
    · exact .inl ⟨hq, nofun, fun _ _ _ h => by cases h⟩
    · rw [mem_singleton.mp hq] at hclaim
      exact absurd hnone hclaim
  | update item target htarget hstored =>
    rcases mem_updateWhere_cases hq with ⟨a, -, -, rfl⟩ | ⟨hold, hnot⟩
    · exact absurd rfl hclaim
    refine .inl ⟨hold, nofun, fun item' _ _ hinput hid _ => hnot ?_⟩
    cases hinput
    -- the updated row has the id of `q`, so it is `q`
    obtain ⟨q₁, hq₁, htarget₁⟩ := hstored
    obtain rfl : q₁ = q := eq_of_key_eq hnd hq₁ hold ((htarget q₁ htarget₁).trans hid)
    exact htarget₁
  | claim replica now token locked =>
    rcases mem_updateWhere_cases hq with ⟨a, ha, hdue, rfl⟩ | ⟨hold, hnot⟩
    · exact .inr ⟨replica, now, token, locked, _, rfl, rfl, mem_map_of_mem (mem_filter.mpr ⟨ha, hdue⟩)⟩
    · refine .inl ⟨hold, ?_, fun _ _ _ h => by cases h⟩
      intro items hout i hi hid
      obtain rfl := SchedulerOut.claimed.inj hout
      obtain ⟨a, ha, rfl⟩ := mem_map.mp hi
      obtain ⟨hmem, hdue⟩ := mem_filter.mp ha
      obtain rfl : a = q := eq_of_key_eq hnd hmem hold hid
      exact hnot hdue
  | complete item hdone =>
    rw [hdone.schedules] at hq
    rcases mem_updateWhere_cases hq with ⟨a, -, -, rfl⟩ | ⟨hold, -⟩
    · exact absurd rfl hclaim
    · exact .inl ⟨hold, nofun, fun _ _ _ h => by cases h⟩

theorem schedule_ids_next (hnd : (s.db.schedules.map (·.id)).Nodup) (op : SchedulerOp) :
    (((scheduler D cron).next s op).db.schedules.map (·.id)).Nodup := by
  have hupdate : ∀ {p : ScheduleRow → Bool} {f : ScheduleRow → ScheduleRow}, (∀ q, (f q).id = q.id) →
      ((updateWhere p f s.db.schedules).map (·.id)).Nodup := by
    intro p f hf
    rw [map_updateWhere (·.id) fun q _ _ => hf q]
    exact hnd
  have hcase := schedule_cases D cron s op
  generalize (scheduler D cron).next s op = s', (scheduler D cron).out s op = out at hcase
  obtain ⟨db', work⟩ := s'
  cases hcase with
  | quiet hschedules => rwa [hschedules]
  | create item q hid _ hfresh =>
    exact nodup_keys_concat hnd fun r hr heq => hfresh r hr (heq.trans hid)
  | update | claim => exact hupdate fun _ => rfl
  | complete item hdone =>
    rw [hdone.schedules]
    exact hupdate fun _ => rfl

theorem schedule_ids_nodup (D : Digests) (cron : Cron) (ops : List SchedulerOp) :
    (((scheduler D cron).run {} ops).db.schedules.map (·.id)).Nodup :=
  (scheduler D cron).run_induction (P := fun s => (s.db.schedules.map fun q => q.id).Nodup)
    (s := {}) nodup_nil (fun _ op h => schedule_ids_next h op) ops

/-- A claim of the replica gave the item, and since then the schedule is untouched. -/
def Issued (D : Digests) (cron : Cron) (ops : List SchedulerOp) (replica : Nat) (item : ScheduleRow) : Prop :=
  ∃ before now token locked after items, ops = before ++ SchedulerOp.claim replica now token locked :: after ∧
    (scheduler D cron).out ((scheduler D cron).run {} before) (.claim replica now token locked) = .claimed items ∧
    item ∈ items ∧
    ∀ t ∈ (scheduler D cron).transitions
      ((scheduler D cron).run {} (before ++ [.claim replica now token locked])) after, Untouched item.id t

/-- **Every stored claim goes back to the claim that made it.** -/
theorem claim_issued (hq : q ∈ ((scheduler D cron).run {} ops).db.schedules) (hclaim : q.claim ≠ none) :
    ∃ replica, Issued D cron ops replica q := by
  induction ops using reverseRecOn with
  | nil => cases hq
  | append_singleton ops op ih =>
    rw [Mealy.run_concat] at hq
    rcases step_claim (schedule_ids_nodup D cron ops) op hq hclaim with ⟨hold, huntouched⟩ | hmade
    · obtain ⟨replica, before, now, token, locked, after, items, rfl, hout, hitem, hsince⟩ := ih hold
      refine ⟨replica, before, now, token, locked, after ++ [op], items, by simp, hout, hitem, ?_⟩
      rw [Mealy.transitions_concat, ← Mealy.run_append, append_assoc]
      exact forall_mem_concat hsince huntouched
    · obtain ⟨replica, now, token, locked, items, rfl, hout, hitem⟩ := hmade
      exact ⟨replica, ops, now, token, locked, [], items, rfl, hout, hitem, fun t ht => by cases ht⟩

theorem step_work (op : SchedulerOp) (h : item ∈ ((scheduler D cron).next s op).work replica) :
    item ∈ s.work replica ∨ ∃ now token locked items, op = .claim replica now token locked ∧
      (scheduler D cron).out s op = .claimed items ∧ item ∈ items := by
  have hdropped : ∀ {r : Nat} {items : List ScheduleRow}, items ⊆ s.work r →
      item ∈ Function.update s.work r items replica → item ∈ s.work replica := by
    intro r items hsub hitem
    by_cases hr : replica = r
    · subst hr
      rw [update_self] at hitem
      exact hsub hitem
    · rwa [update_of_ne hr] at hitem
  simp only [Mealy.next, scheduler] at h ⊢
  cases op with
  | queue => exact .inl h
  | claim r now token locked =>
    simp only [schedulerExec] at h ⊢
    by_cases hr : replica = r
    · subst hr
      rw [update_self] at h
      exact .inr ⟨now, token, locked, _, rfl, rfl, h⟩
    · rw [update_of_ne hr] at h
      exact .inl h
  | complete =>
    refine .inl ?_
    simp only [schedulerExec] at h
    split at h
    · exact h
    next first rest hwork =>
    split at h
    · exact hdropped (nil_subset _) h
    · split at h
      · exact hdropped (nil_subset _) h
      · exact hdropped (hwork ▸ subset_cons_self first rest) h
  | crash => exact .inl (hdropped (nil_subset _) h)

theorem work_issued (h : item ∈ ((scheduler D cron).run {} ops).work replica) :
    ∃ before now token locked after items, ops = before ++ SchedulerOp.claim replica now token locked :: after ∧
      (scheduler D cron).out ((scheduler D cron).run {} before) (.claim replica now token locked)
        = .claimed items ∧ item ∈ items := by
  obtain ⟨before, op, after, rfl, hnew, hsince⟩ :=
    Mealy.exists_since (P := fun ops => item ∈ ((scheduler D cron).run {} ops).work replica) not_mem_nil h
  have hnow := hsince [] nil_prefix
  rw [Mealy.run_concat] at hnow
  rcases step_work op hnow with hold | ⟨now, token, locked, items, rfl, hout, hitem⟩
  · exact absurd hold hnew
  · exact ⟨before, now, token, locked, after, items, rfl, hout, hitem⟩

/-- The tokens of the claims. -/
def SchedulerOp.tokens : SchedulerOp → List String
  | .claim _ _ token _ => [token]
  | _ => []

/-- The items of a claim carry its token, and each schedule once. -/
theorem claimed_items {now : Int} {token : String} {locked : List String} {items : List ScheduleRow}
    (h : (scheduler D cron).out s (.claim replica now token locked) = .claimed items) :
    (∀ i ∈ items, i.claim = some (token, now + 15 * second)) ∧
      ((s.db.schedules.map (·.id)).Nodup → (items.map (·.id)).Nodup) := by
  obtain rfl := SchedulerOut.claimed.inj h
  refine ⟨fun i hi => ?_, fun hnd => ?_⟩
  · obtain ⟨q, -, rfl⟩ := mem_map.mp hi
    rfl
  · rw [map_map]
    exact (filter_sublist.map (fun q : ScheduleRow => q.id)).nodup hnd

/-- **The item in a replica's hands is the stored row**, if the row still has the item's token: the replica
made the latest claim of the schedule and nothing has updated the schedule since. -/
theorem item_stored (htokens : (ops.flatMap SchedulerOp.tokens).Nodup)
    (hitem : item ∈ ((scheduler D cron).run {} ops).work replica)
    (hq : q ∈ ((scheduler D cron).run {} ops).db.schedules) (hid : q.id = item.id)
    (htoken : q.claim.map Prod.fst = some ((item.claim.map Prod.fst).getD "")) :
    q = item ∧ Issued D cron ops replica item := by
  obtain ⟨before, now, token, locked, after, items, hsplit, hout, hmem⟩ := work_issued hitem
  have hclaim : q.claim ≠ none := by
    intro hnone
    rw [hnone] at htoken
    cases htoken
  obtain ⟨replica', before', now', token', locked', after', items', hsplit', hout', hmem', hsince⟩ :=
    claim_issued hq hclaim
  -- both claims have the token of the stored row, so they are one
  have heq : token' = token := by
    rw [(claimed_items hout').1 q hmem', (claimed_items hout).1 item hmem] at htoken
    exact Option.some.inj htoken
  subst heq
  rw [hsplit] at htokens
  obtain ⟨rfl, hop, rfl⟩ := split_unique_of_nodup_flatMap htokens (hsplit ▸ hsplit')
    (show token' ∈ SchedulerOp.tokens (.claim replica now token' locked) from mem_cons_self)
    (show token' ∈ SchedulerOp.tokens (.claim replica' now' token' locked') from mem_cons_self)
  cases hop
  obtain rfl := SchedulerOut.claimed.inj (hout.symm.trans hout')
  have hnd := (claimed_items hout).2 (schedule_ids_nodup D cron before)
  obtain rfl : q = item := eq_of_key_eq hnd hmem' hmem hid
  exact ⟨rfl, before, now, token', locked, after, items, hsplit, hout, hmem, hsince⟩

end Claims

/-! ## Occurrences -/

/-- The schedule and the occurrence that a step is to complete. -/
def SchedulerOp.completing (s : SchedulerState) : SchedulerOp → Option (String × Int)
  | .complete replica _ => (s.work replica).head?.map fun item => (item.id, item.nextRunAt)
  | _ => none

/-- The rows of a table that the completions of one occurrence insert, over a run. -/
def created {α : Type*} (table : QueueDb → List α) (key : α → String) (scheduleId : String)
    (occurrence : Int) (ts : List (Transition SchedulerState SchedulerOp SchedulerOut)) : List α :=
  ts.flatMap fun t =>
    if t.input.completing t.pre = some (scheduleId, occurrence) then
      inserted key (table t.pre.db) (table t.post.db)
    else []

theorem Recorded.next {scheduleId : String} {occurrence : Int} (h : Recorded s.db scheduleId occurrence)
    (op : SchedulerOp) : Recorded ((scheduler D cron).next s op).db scheduleId occurrence := by
  obtain ⟨o, ho, hkey⟩ := h
  have hcase := schedule_cases D cron s op
  generalize (scheduler D cron).next s op = s', (scheduler D cron).out s op = out at hcase
  obtain ⟨db', work⟩ := s'
  refine ⟨o, ?_, hkey⟩
  cases hcase with
  | quiet _ hoccurrences => rwa [hoccurrences]
  | create | update | claim => exact ho
  | complete item hdone =>
    obtain ⟨new, hnew⟩ := hdone.occurrences
    rw [hnew]
    exact mem_append_left _ ho

/-- A completion inserts at most one row into the table, and only for an occurrence that is not recorded. -/
def FiresOnce {α : Type*} (table : QueueDb → List α) : Prop :=
  ∀ c q db db', Completes c q db db' → table db' = table db ∨
    ¬ Recorded db c.scheduleId c.occurrenceAt ∧ ∃ new, table db' = table db ++ new ∧ new.length ≤ 1

theorem firesOnce_events : FiresOnce QueueDb.events := by
  intro c q db db' hdone
  rcases hdone.created with ⟨hsame, -⟩ | ⟨hfresh, hevents, -⟩
  · exact .inl hsame
  · exact .inr ⟨hfresh, hevents⟩

theorem firesOnce_deliveries : FiresOnce QueueDb.deliveries := by
  intro c q db db' hdone
  rcases hdone.created with ⟨-, hsame⟩ | ⟨hfresh, -, hdeliveries⟩
  · exact .inl hsame
  · exact .inr ⟨hfresh, hdeliveries⟩

theorem FiresOnce.step {α : Type*} {table : QueueDb → List α} (h : FiresOnce table) (D : Digests)
    (cron : Cron) (key : α → String) {op : SchedulerOp} {scheduleId : String} {occurrence : Int}
    (hop : op.completing s = some (scheduleId, occurrence)) :
    inserted key (table s.db) (table ((scheduler D cron).next s op).db) = [] ∨
      ¬ Recorded s.db scheduleId occurrence ∧ Recorded ((scheduler D cron).next s op).db scheduleId occurrence ∧
        (inserted key (table s.db) (table ((scheduler D cron).next s op).db)).length ≤ 1 := by
  have hnothing : ∀ {rows : List α}, rows = table s.db → inserted key (table s.db) rows = [] := by
    rintro rows rfl
    have hle := inserted_append_length_le key (table s.db) []
    rw [append_nil] at hle
    exact length_eq_zero_iff.mp (Nat.le_zero.mp hle)
  cases op with
  | complete replica now =>
    rcases complete_cases D cron s replica now with ⟨hdb, -⟩ | ⟨item, rest, next, q, hwork, -, -, hdone⟩
    · exact .inl (hnothing (by rw [hdb]))
    obtain ⟨rfl, rfl⟩ : item.id = scheduleId ∧ item.nextRunAt = occurrence := by
      rw [SchedulerOp.completing, hwork] at hop
      exact Prod.mk.inj (Option.some.inj hop)
    rcases h _ _ _ _ hdone with hsame | ⟨hfresh, new, hnew, hone⟩
    · exact .inl (hnothing hsame)
    · refine .inr ⟨hfresh, hdone.recorded, ?_⟩
      rw [hnew]
      exact (inserted_append_length_le key (table s.db) new).trans hone
  | _ => cases hop

/-- **An occurrence inserts at most one row over a whole run**, since its row in
`queue_schedule_occurrences` stays. -/
theorem FiresOnce.created_le_one {α : Type*} {table : QueueDb → List α} (h : FiresOnce table) (key : α → String)
    (scheduleId : String) (occurrence : Int) (ops : List SchedulerOp) :
    (created table key scheduleId occurrence ((scheduler D cron).transitions {} ops)).length ≤ 1 := by
  suffices hinv : created table key scheduleId occurrence ((scheduler D cron).transitions {} ops) = [] ∨
      Recorded ((scheduler D cron).run {} ops).db scheduleId occurrence ∧
        (created table key scheduleId occurrence ((scheduler D cron).transitions {} ops)).length ≤ 1 by
    rcases hinv with hnone | ⟨-, hone⟩
    · rw [hnone]
      exact Nat.zero_le 1
    · exact hone
  induction ops using reverseRecOn with
  | nil => exact .inl rfl
  | append_singleton ops op ih =>
    set s := (scheduler D cron).run {} ops
    have hsplit : created table key scheduleId occurrence ((scheduler D cron).transitions {} (ops ++ [op]))
        = created table key scheduleId occurrence ((scheduler D cron).transitions {} ops) ++
          if op.completing s = some (scheduleId, occurrence) then
            inserted key (table s.db) (table ((scheduler D cron).next s op).db)
          else [] := by
      rw [Mealy.transitions_concat, created, flatMap_append, flatMap_singleton]
      rfl
    rw [hsplit, Mealy.run_concat]
    by_cases hop : op.completing s = some (scheduleId, occurrence)
    · rw [if_pos hop]
      rcases h.step D cron key hop with hnothing | ⟨hfresh, hrecorded, hone⟩
      · rw [hnothing, append_nil]
        exact ih.imp id fun hold => ⟨hold.1.next op, hold.2⟩
      · rcases ih with hnone | ⟨hold, -⟩
        · rw [hnone]
          exact .inr ⟨hrecorded, hone⟩
        · exact absurd hold hfresh
    · rw [if_neg hop, append_nil]
      exact ih.imp id fun hold => ⟨hold.1.next op, hold.2⟩

/-- **Scheduled occurrences fire at most once**, for any number of replicas that claim, complete and crash in
any order.

1. Over the whole run, the completions of one occurrence of a schedule insert at most one event and at most
   one delivery.
2. An accepted completion comes from the replica that made the latest claim of the schedule. Nothing has
   claimed or updated the schedule since, and the row is stored as the replica got it, so its generation and
   its `next_run_at` are the ones the completion names.
3. It sets `last_run_at` to the occurrence and `next_run_at` to a later instant. -/
theorem occurrence_fires_once (D : Digests) (cron : Cron)
    (hcron : ∀ expression timezone t next, cron expression timezone t = some next → t < next)
    (ops : List SchedulerOp) (htokens : (ops.flatMap SchedulerOp.tokens).Nodup) :
    (∀ scheduleId occurrence, (created QueueDb.events EventRow.id scheduleId occurrence
        ((scheduler D cron).transitions {} ops)).length ≤ 1 ∧
      (created QueueDb.deliveries DeliveryRow.id scheduleId occurrence
        ((scheduler D cron).transitions {} ops)).length ≤ 1) ∧
    ∀ before replica now after, ops = before ++ SchedulerOp.complete replica now :: after →
      (scheduler D cron).out ((scheduler D cron).run {} before) (.complete replica now) = .completed →
      ∃ item rest, ((scheduler D cron).run {} before).work replica = item :: rest ∧
        item ∈ ((scheduler D cron).run {} before).db.schedules ∧
        (∃ before' now' token locked since items,
          before = before' ++ SchedulerOp.claim replica now' token locked :: since ∧
          (scheduler D cron).out ((scheduler D cron).run {} before') (.claim replica now' token locked)
            = .claimed items ∧ item ∈ items ∧
          ∀ t ∈ (scheduler D cron).transitions
              ((scheduler D cron).run {} (before' ++ [.claim replica now' token locked])) since,
            Untouched item.id t) ∧
        ∃ row, (∀ q, q ∈ ((scheduler D cron).run {} (before ++ [.complete replica now])).db.schedules ∧
            q.id = item.id ↔ q = row) ∧
          row.lastRunAt = some item.nextRunAt ∧ item.nextRunAt < row.nextRunAt := by
  refine ⟨fun scheduleId occurrence => ⟨firesOnce_events.created_le_one _ _ _ ops,
    firesOnce_deliveries.created_le_one _ _ _ ops⟩, ?_⟩
  intro before replica now after hops hout
  rcases complete_cases D cron ((scheduler D cron).run {} before) replica now with
    ⟨-, hrejected, -⟩ | ⟨item, rest, next, q, hwork, hnext, -, hdone⟩
  · exact absurd hout hrejected
  have hclaimed := hdone.claimed
  simp only [ScheduleRow.claimedBy, Bool.and_eq_true, decide_eq_true_eq] at hclaimed
  have htokens' : (before.flatMap SchedulerOp.tokens).Nodup := by
    rw [hops, flatMap_append] at htokens
    exact (nodup_append.mp htokens).1
  have hitem : item ∈ ((scheduler D cron).run {} before).work replica := hwork ▸ mem_cons_self
  obtain ⟨rfl, hissued⟩ := item_stored htokens' hitem hdone.stored hclaimed.1.1 hclaimed.1.2
  refine ⟨q, rest, hwork, hdone.stored, hissued, advanceRow (itemCompletion D q next now) q, ?_, rfl,
    hcron _ _ _ _ hnext⟩
  have hnd := schedule_ids_nodup D cron (before ++ [.complete replica now])
  rw [Mealy.run_concat] at hnd ⊢
  have hrow : advanceRow (itemCompletion D q next now) q
      ∈ ((scheduler D cron).next ((scheduler D cron).run {} before) (.complete replica now)).db.schedules := by
    rw [hdone.schedules]
    exact mem_updateWhere.mpr ⟨q, hdone.stored, if_pos hdone.claimed⟩
  intro q'
  constructor
  · rintro ⟨hq', hid⟩
    exact eq_of_key_eq hnd hq' hrow hid
  · rintro rfl
    exact ⟨hrow, rfl⟩

/-! A replica claims an hourly schedule and stalls; when its claim is over, another replica claims the
schedule and completes the occurrence. The first replica wakes up too late. -/

def hourly : Cron := fun _ _ t => some (t + 3600 * second)

def reclaimed : List SchedulerOp :=
  [.queue (.createSubscription sampleSubscription) rfl, .queue (.createSchedule sampleSchedule) rfl,
    .claim 1 (3600 * second) "qclaim_1" [], .claim 2 (3615 * second) "qclaim_2" []]

theorem occurrence_fires_once_reclaimed :
    (created QueueDb.deliveries DeliveryRow.id "qsch_1" (3600 * second) ((scheduler sampleDigests hourly).transitions
      {} (reclaimed ++ .complete 2 (3616 * second) :: [.complete 1 (3617 * second)]))).length ≤ 1 ∧
    ∃ item rest, ((scheduler sampleDigests hourly).run {} reclaimed).work 2 = item :: rest ∧
      item ∈ ((scheduler sampleDigests hourly).run {} reclaimed).db.schedules := by
  have hhourly : ∀ expression timezone t next, hourly expression timezone t = some next → t < next := by
    intro expression timezone t next h
    have hnext := Option.some.inj h
    have hsecond : second = 1000000 := rfl
    omega
  have hrun := occurrence_fires_once sampleDigests hourly hhourly
    (reclaimed ++ .complete 2 (3616 * second) :: [.complete 1 (3617 * second)]) (by decide)
  obtain ⟨item, rest, hwork, hstored, -⟩ := hrun.2 reclaimed 2 (3616 * second) _ rfl rfl
  exact ⟨(hrun.1 "qsch_1" (3600 * second)).2, item, rest, hwork, hstored⟩

end RelayHub.Queue
