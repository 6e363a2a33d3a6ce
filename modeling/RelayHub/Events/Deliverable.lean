import RelayHub.Events.Effects
import RelayHub.Queue.Effects

/-! # RelayHub events — delayed work and retention

A request may ask for its work to become available up to 30 days ahead. The deliveries it inserts expire
with the event or with the retention of their subscription, whichever is first, and both are counted from
the publication. `published_deliverable_iff` says when a delivery can be leased at all: the wanted instant
has to lie before both ends. -/

namespace RelayHub.Events

open List Queue

variable {E : StoreEnv} {o : EventOptions} {reads : Reads} {source key : String}
  {input : PublishRequest} {clock : Int} {db db' : EventDb}

/-! ## Deliverable work -/

/-- A pull at `now` finds the delivery due, and its retention step leaves it. -/
def LeasableAt (now : Int) (d : DeliveryRow) : Prop :=
  d.availableAt ≤ now ∧ retentionExpired d.subscriptionId now d = false

/-- The delivery becomes available before it expires, so there is an instant at which it can be leased. -/
def Deliverable (d : DeliveryRow) : Prop :=
  d.availableAt < d.expiresAt ∧ ∃ now, LeasableAt now d

theorem deliverable_iff {d : DeliveryRow} : Deliverable d ↔ d.availableAt < d.expiresAt := by
  refine ⟨And.left, fun hlt => ⟨hlt, d.availableAt, le_refl _, ?_⟩⟩
  simp [retentionExpired, hlt]

/-! ## The wanted instant -/

/-- The instant a request wants its work to be available at. The zero time asks for nothing. -/
def wantedAt (now : Int) : Option QueuePublish → Int
  | none => now
  | some q => if requestedAt now q = zeroTime then now else requestedAt now q

/-- The wanted instant lies before the end of the event and before the end of the subscription's
retention, and the event does not end in the microsecond it is created in. -/
def WantedInRetention (o : EventOptions) (input : PublishRequest) (s : QueueSubscription) : Prop :=
  micros (wantedAt o.now input.queue) < micros (o.now + (normalizeRetention o.retention).event) ∧
    micros (wantedAt o.now input.queue) < micros o.now + s.retentionSeconds * second ∧
    micros o.now < micros (o.now + (normalizeRetention o.retention).event)

instance (o : EventOptions) (input : PublishRequest) (s : QueueSubscription) :
    Decidable (WantedInRetention o input s) :=
  inferInstanceAs (Decidable (_ ∧ _ ∧ _))

theorem queueAvailableAt_built {p : Publication} (h : Built E o reads source input p) (retention : EventRetention) :
    (queuePublication p.event retention).queueAvailableAt.getD (micros o.now) =
      micros (wantedAt o.now input.queue) := by
  have hqueue := h.queue
  unfold queueEvent at hqueue
  cases hin : input.queue with
  | none =>
    simp only [hin, Option.some.injEq] at hqueue
    simp [queuePublication, ← hqueue, wantedAt]
  | some =>
    simp only [hin, Option.ite_none_left_eq_some, Option.some.injEq] at hqueue
    simp [queuePublication, ← hqueue.2, wantedAt, h.createdAt]

theorem publishedDelivery_deliverable_iff {p : Publication} (h : Built E o reads source input p) (s : SubscriptionRow) :
    Deliverable (publishedDelivery E.digests (queuePublication p.event (normalizeRetention o.retention))
        s.toQueueSubscription) ↔ WantedInRetention o input s.toQueueSubscription := by
  have hretention := s.check.retention
  have hwanted := queueAvailableAt_built h (normalizeRetention o.retention)
  have hcreated : (queuePublication p.event (normalizeRetention o.retention)).createdAt = micros o.now := by
    simp [queuePublication, h.createdAt]
  have hends : (queuePublication p.event (normalizeRetention o.retention)).eventExpiresAt =
      micros (o.now + (normalizeRetention o.retention).event) := by
    simp [queuePublication, h.createdAt]
  rw [deliverable_iff]
  simp only [publishedDelivery, hcreated, WantedInRetention, second]
  omega

/-- A delivery that an accepted request inserts can be leased exactly if the wanted instant lies within
the retention of the event and of the delivery's subscription. -/
theorem published_deliverable_iff (E : StoreEnv) (o : EventOptions) (reads : Reads) (source : String)
    (input : PublishRequest) (key : String) (clock : Int) (db db' : EventDb) (q : Publication)
    (replay : Bool) (h : publish E o reads source input key clock db = .ok ((q, replay), db'))
    (d : DeliveryRow) (hd : d ∈ db'.queue.deliveries) (hnew : d ∉ db.queue.deliveries) :
    ∃ s ∈ db.queue.subscriptions, s.id = d.subscriptionId ∧ s.appId = d.appId ∧
      (Deliverable d ↔ WantedInRetention o input s.toQueueSubscription) := by
  rcases publish_cases h with ⟨-, hqueue, -, -⟩ | ⟨-, -, p, hbuilt, -, -, hdone⟩
  · -- a replay inserts nothing
    rw [hqueue] at hd
    exact absurd hd hnew
  · obtain ⟨rows, hrows, hsub⟩ := publishQueue_entering hdone.queue
    have hentering := hsub ((hrows.mem_cases hd).resolve_left hnew)
    simp only [entering] at hentering
    split at hentering
    · simp at hentering
    · obtain ⟨s, hs, rfl⟩ := mem_map.mp hentering
      exact ⟨s, mem_of_mem_filter hs, rfl, rfl, publishedDelivery_deliverable_iff hbuilt s⟩

/-! ## Ten days ahead -/

/-- A subscription that keeps its deliveries for 30 days. -/
def monthSubscription : SubscriptionRow where
  toQueueSubscription := { sampleSubscription with retentionSeconds := 2592000 }
  check := by decide

def delayedBy (seconds : Int) : QueuePublish where
  availableAt := none
  delaySeconds := some seconds
  orderingKey := ""
  priority := 0
  deduplicationKey := ""
  metadata := ""

/-- A request with a delay, with the event retention left at its default of seven days. -/
def delayedPublish (seconds : Int) : Except ServiceError ((Publication × Bool) × EventDb) :=
  publish sampleStore (sampleOptions 1700000000123456789) sampleReads "app_2"
    (sampleRequest (some (delayedBy seconds))) "key-1" 1700000000123456 (sampleDb [monthSubscription])

/-- A delay of ten days is accepted; its delivery expires after seven and is never leased. -/
theorem delayed_past_retention :
    ∃ q db', delayedPublish 864000 = .ok ((q, false), db') ∧
      ∃ d ∈ db'.queue.deliveries, d.availableAt = 1700864000123456 ∧ d.expiresAt = 1700604800123456 ∧
        ¬ Deliverable d := by
  have hrun : ((delayedPublish 864000).toOption.map fun r =>
      (r.1.2, r.2.queue.deliveries.map fun d => (d.availableAt, d.expiresAt))) =
        some (false, [(1700864000123456, 1700604800123456)]) := by
    decide +kernel
  obtain ⟨q, replay, db', hp, hresult⟩ := accepted_of_eval hrun
  simp only [Prod.mk.injEq] at hresult
  obtain ⟨rfl, hrows⟩ := hresult
  obtain ⟨d, hd, hrow⟩ := mem_map.mp (hrows ▸ mem_singleton.mpr rfl)
  obtain ⟨havail, hexpires⟩ := Prod.mk.inj hrow
  refine ⟨q, db', hp, d, hd, havail, hexpires, fun hdel => ?_⟩
  have := hdel.1
  omega

/-- A delay of one hour is within both retentions. -/
theorem published_deliverable_iff_hour :
    ∃ q db', delayedPublish 3600 = .ok ((q, false), db') ∧ ∃ d ∈ db'.queue.deliveries, Deliverable d := by
  have hrun : ((delayedPublish 3600).toOption.map fun r => (r.1.2, r.2.queue.deliveries.length)) =
      some (false, 1) := by
    decide +kernel
  obtain ⟨q, replay, db', hp, hresult⟩ := accepted_of_eval hrun
  simp only [Prod.mk.injEq] at hresult
  obtain ⟨rfl, hlen⟩ := hresult
  obtain ⟨d, hd⟩ := exists_mem_of_length_pos (by omega : 0 < db'.queue.deliveries.length)
  obtain ⟨s, hs, -, -, hiff⟩ := published_deliverable_iff _ _ _ _ _ _ _ _ _ _ _ hp d hd (not_mem_nil)
  rw [show s = monthSubscription from mem_singleton.mp hs] at hiff
  exact ⟨q, db', hp, d, hd, hiff.mpr (by decide)⟩

end RelayHub.Events
