import RelayHub.Queue.Drain
import RelayHub.Queue.Producers

/-! # RelayHub queue — the deduplication window

A publication with a deduplication key leaves a row in `queue_deduplication_keys` for each subscription it
went into, and the row keeps later publications with the same key out until it expires. Publications also
delete the rows that have expired by *their* `created_at`, and nothing makes these times rise from one
commit to the next: a publication that is ahead of time deletes a row that a late one should still have met.

So the window holds as long as no deleted row is missed (`SparesKeys`); publications that commit in the
order of their times never delete such a row (`sparesKeys_of_ordered`). -/

namespace RelayHub.Queue

open List Table Bool

/-! ## What one publication does -/

/-- The subscription takes the publication, its deduplication key aside. -/
def QueueSubscription.accepts (s : QueueSubscription) (p : QueuePublication) : Bool :=
  p.targetAppIds.contains s.appId && s.isReady
    && (s.eventTypes.isEmpty || s.eventTypes.contains p.eventType)

/-- A stored key of the subscription keeps the publication out of it. -/
def Suppressed (p : QueuePublication) (db : QueueDb) (s : QueueSubscription) : Prop :=
  p.queueDedupHash ≠ "" ∧ s.deduplicationSeconds ≠ 0 ∧ ∃ k ∈ db.dedupKeys,
    k.subscriptionId = s.id ∧ k.keyHash = p.queueDedupHash ∧ p.createdAt < k.expiresAt

variable {p : QueuePublication} {db : QueueDb}

theorem publishes_iff {s : QueueSubscription} : publishes p db s = true ↔ s.accepts p = true ∧ ¬ Suppressed p db s := by
  have hkeys : (p.queueDedupHash = "" || s.deduplicationSeconds = 0 || !db.dedupKeys.any fun k =>
      k.subscriptionId = s.id && k.keyHash = p.queueDedupHash && decide (p.createdAt < k.expiresAt)) = true
        ↔ ¬ Suppressed p db s := by
    simp only [Suppressed, Bool.or_eq_true, decide_eq_true_eq, Bool.not_eq_true', any_eq_false, Bool.and_eq_true]
    grind
  rw [publishes, Bool.and_eq_true, hkeys, QueueSubscription.accepts, QueueSubscription.isReady, ← Bool.and_assoc]

/-- After the insert every selected row is stored, or one with its subscription and event. -/
theorem insertDeliveries_stored {rows new rows' : List DeliveryRow}
    (h : insertDeliveries rows new = .ok rows') {n : DeliveryRow} (hn : n ∈ new) :
    ∃ d ∈ rows', d.subscriptionId = n.subscriptionId ∧ d.eventId = n.eventId := by
  induction new generalizing rows with
  | nil => cases hn
  | cons row rest ih =>
    unfold insertDeliveries at h
    split at h
    · cases h
    next hrow =>
    rcases mem_cons.mp hn with rfl | hn
    · obtain ⟨ins, rfl, -, -⟩ := insertDeliveries_ok h
      unfold insertDelivery at hrow
      split at hrow
      next hconflict =>
        obtain ⟨d, hd, hkey⟩ := any_eq_true.mp hconflict
        rw [and_eq_true, decide_eq_true_eq, decide_eq_true_eq] at hkey
        cases hrow
        exact ⟨d, mem_append_left _ hd, hkey⟩
      · split at hrow
        · cases hrow
        · cases hrow
          exact ⟨n, mem_append_left _ (mem_append_right _ mem_cons_self), rfl, rfl⟩
    · exact ih h hn

variable {D : Digests} {db' : QueueDb}

theorem publishQueue_ok (h : publishQueue D p db = .ok db') : ∃ deliveries, (∀ e ∈ db.events, e.id ≠ p.eventId) ∧
      insertDeliveries db.deliveries (publishedDeliveries D p db) = .ok deliveries ∧
      db'.deliveries = deliveries ∧
      db'.dedupKeys = (insertDedupKeys p { dropExpiredDedupKeys p db with deliveries }).dedupKeys := by
  unfold publishQueue at h
  split at h
  · cases h
  next hfresh =>
  split at h
  · cases h
  dsimp only at h
  split at h
  · cases h
  next deliveries hinsert =>
  cases h
  refine ⟨deliveries, ?_, ?_, ?_, ?_⟩
  · intro e he hid
    exact hfresh (any_eq_true.mpr ⟨e, he, decide_eq_true hid⟩)
  · rw [← hinsert]
    unfold publishedDeliveries
    simp only [publishes_dropExpiredDedupKeys]
    unfold dropExpiredDedupKeys
    split <;> rfl
  · unfold insertDedupKeys
    split <;> rfl
  · unfold insertDedupKeys dropExpiredDedupKeys
    split <;> rfl

/-- The publication puts its event into the subscription. -/
def Obtains (db db' : QueueDb) (eventId subscriptionId : String) : Prop :=
  ∃ d ∈ db'.deliveries, d.subscriptionId = subscriptionId ∧ d.eventId = eventId ∧ Inserts db db' d

instance (db db' : QueueDb) (eventId subscriptionId : String) :
    Decidable (Obtains db db' eventId subscriptionId) :=
  inferInstanceAs (Decidable (∃ d ∈ db'.deliveries, _))

variable {s : SubscriptionRow}

/-- **A committed publication reaches every subscription that accepts it and has no key of its own against
it.** Keys of other subscriptions play no part. -/
theorem obtains_iff (hinv : Inv db) (h : publishQueue D p db = .ok db') (hs : s ∈ db.subscriptions) :
    Obtains db db' p.eventId s.id ↔ publishes p db s.toQueueSubscription = true := by
  obtain ⟨deliveries, hfresh, hinsert, hdeliveries, -⟩ := publishQueue_ok h
  constructor
  · rintro ⟨d, hd, hid, -, -, hnew⟩
    obtain ⟨ins, hrows, hins, -⟩ := insertDeliveries_ok hinsert
    rw [hdeliveries, hrows] at hd
    rcases mem_append.mp hd with hd | hd
    · exact absurd rfl (hnew d hd)
    obtain ⟨s', hs', rfl⟩ := mem_map.mp (hins hd)
    obtain ⟨hmem, hpublishes⟩ := mem_filter.mp hs'
    obtain rfl : s' = s := eq_of_key_eq hinv.subscriptionIds hmem hs hid
    exact hpublishes
  · intro hpublishes
    have hrow : publishedDelivery D p s.toQueueSubscription ∈ publishedDeliveries D p db :=
      mem_map_of_mem (mem_filter.mpr ⟨hs, hpublishes⟩)
    obtain ⟨d, hd, hid, hevent⟩ := insertDeliveries_stored hinsert hrow
    rw [← hdeliveries] at hd
    refine ⟨d, hd, hid, hevent, hd, fun e he heq => ?_⟩
    -- the event is new, so no delivery of it was stored before
    have hnd : (deliveries.map (·.id)).Nodup := by
      obtain ⟨-, -, -, hnodup⟩ := insertDeliveries_ok hinsert
      exact hnodup hinv.deliveryIds
    obtain ⟨ins, hrows, -, -⟩ := insertDeliveries_ok hinsert
    have hold : e ∈ deliveries := hrows ▸ mem_append_left _ he
    obtain rfl : e = d := eq_of_key_eq hnd hold (hdeliveries ▸ hd) heq
    obtain ⟨event, hstored, heventId⟩ := hinv.event e he
    exact hfresh event hstored (heventId.trans hevent)

/-! ## The key a publication leaves -/

/-- A publication that goes into a subscription meets no key there once the expired ones are deleted. -/
theorem dropExpiredDedupKeys_fresh (hs : s ∈ db.subscriptions) (hhash : p.queueDedupHash ≠ "")
    (hseconds : 0 < s.deduplicationSeconds) (hpublishes : publishes p db s.toQueueSubscription = true) :
    ∀ k ∈ (dropExpiredDedupKeys p db).dedupKeys, (k.subscriptionId, k.keyHash) ≠ (s.id, p.queueDedupHash) := by
  intro k hk heq
  obtain ⟨hid, hkey⟩ := Prod.mk.inj heq
  obtain ⟨haccepts, hfree⟩ := publishes_iff.mp hpublishes
  rw [dropExpiredDedupKeys, if_neg hhash] at hk
  obtain ⟨hstored, hkept⟩ := mem_filter.mp hk
  have htarget : p.targetAppIds.contains s.appId = true := by
    rw [QueueSubscription.accepts, and_eq_true, and_eq_true] at haccepts
    exact haccepts.1.1
  by_cases hexpired : k.expiresAt ≤ p.createdAt
  · rw [decide_eq_true hexpired, Bool.true_and, Bool.not_eq_true', any_eq_false] at hkept
    exact hkept s hs (by rw [decide_eq_true hid.symm, htarget]; rfl)
  · exact hfree ⟨hhash, by omega, k, hstored, hid, hkey, by omega⟩

/-- **The key stands from the creation of the event for the subscription's window.** -/
theorem publishQueue_key (hinv : Inv db) (h : publishQueue D p db = .ok db') (hs : s ∈ db.subscriptions)
    (hhash : p.queueDedupHash ≠ "") (hseconds : 0 < s.deduplicationSeconds)
    (hpublishes : publishes p db s.toQueueSubscription = true) :
    ∃ k ∈ db'.dedupKeys, k.subscriptionId = s.id ∧ k.keyHash = p.queueDedupHash ∧
      k.expiresAt = p.createdAt + s.deduplicationSeconds * second := by
  obtain ⟨deliveries, -, hinsert, -, hkeys⟩ := publishQueue_ok h
  have hsubs : (dropExpiredDedupKeys p db).subscriptions = db.subscriptions := by
    unfold dropExpiredDedupKeys
    split <;> rfl
  have hrow : publishedDelivery D p s.toQueueSubscription ∈ publishedDeliveries D p db :=
    mem_map_of_mem (mem_filter.mpr ⟨hs, hpublishes⟩)
  obtain ⟨d, hd, hid, hevent⟩ := insertDeliveries_stored hinsert hrow
  rw [hkeys, insertDedupKeys, if_neg hhash]
  rw [hsubs]
  refine ⟨⟨s.id, p.queueDedupHash, p.eventId, p.createdAt + s.deduplicationSeconds * second⟩,
    mem_insertAllIgnore_of_fresh ?_ (mem_map.mpr ⟨s, mem_filter.mpr ⟨hs, ?_⟩, rfl⟩)
      (dropExpiredDedupKeys_fresh hs hhash hseconds hpublishes), rfl, rfl, rfl⟩
  · -- one key for each subscription, and their ids differ
    apply List.Nodup.of_map Prod.fst
    rw [map_map, map_map]
    exact (filter_sublist.map (fun s : SubscriptionRow => s.id)).nodup hinv.subscriptionIds
  · rw [and_eq_true]
    exact ⟨decide_eq_true hseconds, any_eq_true.mpr ⟨d, hd, by simp [hid, hevent, publishedDelivery]⟩⟩

/-! ## The window over a run -/

/-- The keys that the publication `op` finds expired are not missed: a publication to come with the same key,
to the same application, is not created before the key expires. -/
def SparesKeys (db : QueueDb) (op : QueueOp) (rest : List QueueOp) : Prop :=
  match op with
  | .publish p => p.queueDedupHash ≠ "" → ∀ k ∈ db.dedupKeys, k.expiresAt ≤ p.createdAt →
    ∀ s ∈ db.subscriptions, s.id = k.subscriptionId → s.appId ∈ p.targetAppIds →
      ∀ q, QueueOp.publish q ∈ rest → q.queueDedupHash = k.keyHash → s.appId ∈ q.targetAppIds →
        k.expiresAt ≤ q.createdAt
  | _ => True

/-- Publications that commit in the order of their times spare every key. -/
theorem sparesKeys_of_ordered {ops : List QueueOp}
    (h : ops.Pairwise fun op op' => ∀ p q, op = .publish p → op' = .publish q → p.createdAt ≤ q.createdAt)
    (db : QueueDb) : (queue D).Steps SparesKeys db ops := by
  induction ops generalizing db with
  | nil => trivial
  | cons op ops ih =>
    obtain ⟨hop, hops⟩ := pairwise_cons.mp h
    refine ⟨?_, ih hops _⟩
    cases op with
    | publish p =>
      intro _ k _ hexpired s _ _ _ q hq _ _
      exact hexpired.trans (hop _ hq p q rfl rfl)
    | _ => trivial

/-- What still guards a window that ends at `expiresAt`: the key is stored, or no publication to come falls
into the window. -/
def Guarded (s : SubscriptionRow) (hash : String) (expiresAt : Int) (rest : List QueueOp) (db : QueueDb) :
    Prop :=
  (∃ k ∈ db.dedupKeys, k.subscriptionId = s.id ∧ k.keyHash = hash ∧ k.expiresAt = expiresAt) ∨
    ∀ q, QueueOp.publish q ∈ rest → q.queueDedupHash = hash → s.appId ∈ q.targetAppIds → expiresAt ≤ q.createdAt

/-- A key leaves the table only by a publication that finds it expired. -/
theorem exec_key {k : DedupRow} (hk : k ∈ db.dedupKeys) (op : QueueOp) :
    k ∈ ((queue D).next db op).dedupKeys ∨ ∃ p, op = .publish p ∧ p.queueDedupHash ≠ "" ∧
      k.expiresAt ≤ p.createdAt ∧ ∃ s ∈ db.subscriptions, s.id = k.subscriptionId ∧ s.appId ∈ p.targetAppIds := by
  by_cases hop : op.writesKeys = false
  · rw [(exec_frame D db op).dedupKeys hop]
    exact .inl hk
  cases op with
  | publish p =>
    show k ∈ (commitDone db (publishQueue D p db)).2.dedupKeys ∨ _
    cases hpublish : publishQueue D p db with
    | error => exact .inl hk
    | ok db' =>
      obtain ⟨deliveries, -, -, -, hkeys⟩ := publishQueue_ok hpublish
      show k ∈ db'.dedupKeys ∨ _
      rw [hkeys, insertDedupKeys, dropExpiredDedupKeys]
      by_cases hhash : p.queueDedupHash = ""
      · rw [if_pos hhash, if_pos hhash]
        exact .inl hk
      · rw [if_neg hhash, if_neg hhash]
        cases hdrop : decide (k.expiresAt ≤ p.createdAt) && db.subscriptions.any fun s =>
            s.id = k.subscriptionId && p.targetAppIds.contains s.appId with
        | false =>
          refine .inl (mem_insertAllIgnore_of_mem (mem_filter.mpr ⟨hk, ?_⟩))
          rw [hdrop]
          rfl
        | true =>
          rw [and_eq_true, decide_eq_true_eq, any_eq_true] at hdrop
          obtain ⟨hexpired, s, hs, hown⟩ := hdrop
          rw [and_eq_true, decide_eq_true_eq, contains_iff_mem] at hown
          exact .inr ⟨p, rfl, hhash, hexpired, s, hs, hown⟩
  | _ => exact absurd rfl hop

theorem Guarded.next {hash : String} {expiresAt : Int} {op : QueueOp} {rest : List QueueOp} (hinv : Inv db)
    (h : Guarded s hash expiresAt (op :: rest) db) (hs : ∃ s' ∈ db.subscriptions, s'.id = s.id ∧ s'.appId = s.appId)
    (hspare : SparesKeys db op rest) : Guarded s hash expiresAt rest ((queue D).next db op) := by
  rcases h with ⟨k, hk, hid, hkey, hexpires⟩ | h
  · rcases exec_key hk op with hkept | ⟨p, rfl, hhash, hexpired, s₁, hs₁, hid₁, htarget⟩
    · exact .inl ⟨k, hkept, hid, hkey, hexpires⟩
    obtain ⟨s', hs', hid', happ⟩ := hs
    obtain rfl : s₁ = s' := eq_of_key_eq hinv.subscriptionIds hs₁ hs' (hid₁.trans (hid.trans hid'.symm))
    refine .inr fun q hq hqhash hqtarget => ?_
    rw [← hexpires]
    exact hspare hhash k hk hexpired s₁ hs₁ hid₁ htarget q hq (hqhash.trans hkey.symm) (happ ▸ hqtarget)
  · exact .inr fun q hq => h q (mem_cons_of_mem _ hq)

/-- The guard lasts until the next publication of the run that could fall into the window. -/
theorem Guarded.run {hash : String} {expiresAt : Int} {mid rest : List QueueOp} (hinv : Inv db)
    (hs : ∃ s' ∈ db.subscriptions, s'.id = s.id ∧ s'.appId = s.appId)
    (hsteps : (queue D).Steps SparesKeys db (mid ++ rest)) (h : Guarded s hash expiresAt (mid ++ rest) db) :
    Guarded s hash expiresAt rest ((queue D).run db mid) ∧
      ∃ s' ∈ ((queue D).run db mid).subscriptions, s'.id = s.id ∧ s'.appId = s.appId := by
  induction mid generalizing db with
  | nil => exact ⟨h, hs⟩
  | cons op mid ih =>
    refine ih (hinv.next op) ?_ hsteps.2 (h.next hinv hs hsteps.1)
    obtain ⟨s₁, hs₁, hid, happ⟩ := hs
    obtain ⟨s₂, hs₂, hstep⟩ := hinv.drainsKept op s₁ hs₁
    exact ⟨s₂, hs₂, hstep.id.trans hid, hstep.appId.trans happ⟩

theorem publish_committed (D : Digests) (db : QueueDb) (p : QueuePublication) :
    publishQueue D p db = .ok ((queue D).next db (.publish p)) ∨
      (∃ e, (queue D).out db (.publish p) = .failed e) ∧ (queue D).next db (.publish p) = db := by
  simp only [Mealy.next, Mealy.out, queue, exec]
  cases hpublish : publishQueue D p db with
  | error e => exact .inr ⟨⟨e, rfl⟩, rfl⟩
  | ok => exact .inl rfl

theorem Obtains.committed {eventId id : String} (h : Obtains db ((queue D).next db (.publish p)) eventId id) :
    publishQueue D p db = .ok ((queue D).next db (.publish p)) := by
  rcases publish_committed D db p with hok | ⟨-, hsame⟩
  · exact hok
  · obtain ⟨d, hd, -, -, -, hnew⟩ := h
    rw [hsame] at hd
    exact absurd rfl (hnew d hd)

def windowSubscription : QueueSubscription := { sampleSubscription with deduplicationSeconds := 60 }

def keyedAt (eventId hash : String) (createdAt : Int) : QueueOp :=
  .publish { samplePublication eventId createdAt with queueDedupHash := hash }

def aheadOfTime : List QueueOp :=
  [.createSubscription windowSubscription, keyedAt "evt_1" "h1" 0, keyedAt "evt_2" "h2" (60 * second)]

/-- The same without the second publication, and the third created when the window is over. -/
def inTime : List QueueOp := [.createSubscription windowSubscription, keyedAt "evt_1" "h1" 0]

end RelayHub.Queue
