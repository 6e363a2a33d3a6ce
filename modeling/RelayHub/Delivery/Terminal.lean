import RelayHub.Delivery.Publishing

/-! # RelayHub deliveries — terminal failures of the outbox

`BeginOutboxPublish` on an exhausted row and `FailOutbox` dead-letter the delivery of the row. Their update sets
three of the five assignment columns to null. It was written before migration 009 added the other two. -/

namespace RelayHub.Delivery

open Table

theorem assignmentColumns_complete (d : DeliveryRow) : d.assignmentColumns.complete = true := by
  cases h : d.assignment with
  | none => simp [DeliveryRow.assignmentColumns, AssignmentColumns.complete, h]
  | some a => simp [DeliveryRow.assignmentColumns, AssignmentColumns.complete, h, a.started_le, a.le_max]

/-! ## When a terminal failure commits -/

/-- The delivery of `o` is acknowledged or not assigned. -/
def Unassigned (db : DeliveryDb) (o : OutboxRow) : Prop :=
  ∀ d ∈ db.deliveries, d.id = o.deliveryId → d.status ≠ .acked → d.assignment = none

theorem failRow_ok_iff (o : OutboxRow) (now : Int) (reason : String) (db : DeliveryDb) :
    (∃ db', failRow o now reason db = .ok db') ↔ Unassigned db o := by
  have hany : (db.deliveries.any fun d => (decide (d.id = o.deliveryId) && decide (d.status ≠ .acked)) &&
      !d.assignmentColumns.cleared.complete) = false ↔ Unassigned db o := by
    simp [Unassigned, cleared_complete_iff]
  rw [← hany, failRow, deadLetterUnacked]
  cases db.deliveries.any _ <;> simp

variable {outboxId claimToken : String} {o : OutboxRow} {db : DeliveryDb}

theorem failOutbox_ok_iff (ho : claimedRow outboxId claimToken db = some o) (now : Int) (reason : String) :
    (∃ db', failOutbox outboxId claimToken now reason db = .ok db') ↔ Unassigned db o := by
  rw [failOutbox, ho]
  exact failRow_ok_iff o now _ db

theorem beginOutboxPublish_exhausted (ho : claimedRow outboxId claimToken db = some o) (now : Int)
    {maxAttempts : Int} (hmax : 1 ≤ maxAttempts) (hexhausted : maxAttempts ≤ o.attempts) :
    beginOutboxPublish outboxId claimToken now maxAttempts db =
      (failRow o now "max_attempts" db).map (⟨o.attempts, true⟩, ·) := by
  rw [beginOutboxPublish, if_neg (by omega), ho]
  dsimp only
  rw [if_pos hexhausted]
  cases failRow o now "max_attempts" db <;> rfl

/-- A round goes on to its next message exactly when the store committed. -/
theorem settle_next_iff (s : DispatchState) (r : Round) (result : Except StoreError DeliveryDb) :
    (s.settle r result).rounds.find? (·.dispatcher = r.dispatcher) = some r.next ↔ ∃ db, result = .ok db := by
  cases result with
  | error e =>
    have hnone : (s.endRound r.dispatcher).rounds.find? (·.dispatcher = r.dispatcher) = none := by
      simp [DispatchState.endRound]
    simp [DispatchState.settle, hnone]
  | ok db => simp [DispatchState.settle, DispatchState.setRound, Round.next]

theorem terminal_failures_commit_iff (E : DeliveryEnv) (options : Nat → DispatcherOptions) (maxAttempts : Nat)
    (s : DispatchState) :
    (∀ d ∈ s.db.deliveries, d.assignmentColumns.complete = true ∧
      (d.assignmentColumns.cleared.complete = true ↔ d.assignment = none)) ∧
    (∀ outboxId claimToken o, claimedRow outboxId claimToken s.db = some o →
      (∀ now reason, (∃ db', failOutbox outboxId claimToken now reason s.db = .ok db') ↔ Unassigned s.db o) ∧
      ∀ now (limit : Int), 1 ≤ limit → limit ≤ o.attempts →
        ((∃ db', beginOutboxPublish outboxId claimToken now limit s.db = .ok (⟨o.attempts, true⟩, db')) ↔
          Unassigned s.db o)) ∧
    ∀ i r m rest o, s.rounds.find? (·.dispatcher = i) = some r → r.messages = m :: rest →
      claimedRow m.id (m.token.getD "") s.db = some o →
      (r.phase = .claimed → 1 ≤ maxAttempts → maxAttempts ≤ o.attempts →
        ((dispatchExec E options maxAttempts s (.begin i)).rounds.find? (·.dispatcher = i) = some r.next ↔
          Unassigned s.db o)) ∧
      ∀ attempt clock, r.phase = .refused attempt → maxAttempts ≤ attempt →
        ((dispatchExec E options maxAttempts s (.finish i clock)).rounds.find? (·.dispatcher = i) = some r.next ↔
          Unassigned s.db o) := by
  refine ⟨fun d _ => ⟨assignmentColumns_complete d, cleared_complete_iff d⟩, fun outboxId claimToken o ho =>
    ⟨failOutbox_ok_iff ho, fun now limit hlimit hexhausted => ?_⟩, fun i r m rest o hr hmessages ho => ?_⟩
  · rw [beginOutboxPublish_exhausted ho now hlimit hexhausted, ← failRow_ok_iff o now "max_attempts"]
    cases failRow o now "max_attempts" s.db <;> simp [Except.map]
  obtain rfl : r.dispatcher = i := by simpa using List.find?_some hr
  refine ⟨fun hphase hmax hexhausted => ?_, fun attempt clock hphase hattempt => ?_⟩
  · have hbegin := beginOutboxPublish_exhausted ho r.now (by omega : (1 : Int) ≤ maxAttempts) (by omega)
    rw [← failRow_ok_iff o r.now "max_attempts", ← settle_next_iff s r]
    simp only [dispatchExec, hr, hphase, hmessages, hbegin]
    cases failRow o r.now "max_attempts" s.db <;> rfl
  · rw [← failOutbox_ok_iff ho r.now "broker_unavailable", ← settle_next_iff s r]
    simp only [dispatchExec, hr, hphase, hmessages, if_pos hattempt]

/-- Two deliveries are claimed together. The broker takes the message of the first and its answer is lost. A
connection is assigned that delivery before the dispatcher records the failure of its only attempt. -/
def ambiguous : DispatchState :=
  (dispatchers sampleEnv sampleOptions 1).run {}
    [.store (.insert { sampleDelivery with sink := .stream }) rfl,
      .store (.insert { sampleDelivery with deliveryId := "dlv_2", jobId := "job_2" }) rfl,
      .claim 1 second "claim_1" [], .begin 1, .publish 1 false,
      .store (.assign "dlv_1" "app_1" "conn_1" "token_1" 1 second (30 * second) (300 * second)) rfl]

/-- The failure is not recorded, and the round ends before the other message. -/
theorem terminal_failure_blocks_batch :
    ambiguous.rounds.map (fun r => (r.phase, r.messages.map fun m =>
      (claimedRow m.id (m.token.getD "") ambiguous.db).isSome)) = [(.refused 1, [true, true])] ∧
    (dispatchExec sampleEnv sampleOptions 1 ambiguous (.finish 1 (2 * second))).rounds.length = 0 ∧
    (dispatchExec sampleEnv sampleOptions 1 ambiguous (.finish 1 (2 * second))).db.outbox = ambiguous.db.outbox := by
  decide +kernel

end RelayHub.Delivery
