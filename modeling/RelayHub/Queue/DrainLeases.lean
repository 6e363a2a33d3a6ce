import RelayHub.Queue.Drain
import RelayHub.Queue.Fencing
import RelayHub.Queue.InPull
import RelayHub.Queue.Producers

/-! # RelayHub queue — leases of a draining subscription

What moves a delivery out of flight is a settlement, which needs a lease that has not expired, or the
reclaim at the start of a pull, which needs one that has. A pull on a draining subscription returns before
it reclaims. So a delivery of such a subscription can still leave exactly as long as its lease runs
(`draining_leaves_iff`): once the lease has expired it stays in flight whatever is done
(`Stranded.next`), and the drain never completes. -/

namespace RelayHub.Queue

open List Table

/-! ## Time -/

/-- The time an operation carries. -/
def QueueOp.time : QueueOp → Option Int
  | .createSubscription item => some item.updatedAt
  | .updateSubscription item _ => some item.updatedAt
  | .beginDrain _ _ startedAt _ => some startedAt
  | .getDrain _ _ now => some now
  | .createSchedule item => some item.updatedAt
  | .updateSchedule item _ => some item.updatedAt
  | .claimSchedules now _ _ _ => some now
  | .completeSchedule _ _ _ _ _ now => some now
  | .publish p => some p.createdAt
  | .pull request _ => some request.now
  | .settle _ _ _ now => some now
  | .extend _ _ _ now => some now
  | .replay _ _ _ now => some now
  | .delete _ _ _ => none

/-- The operation does not run before `t`. -/
def QueueOp.NotBefore (t : Int) (op : QueueOp) : Prop := ∀ u ∈ op.time, t ≤ u

instance (t : Int) (op : QueueOp) : Decidable (op.NotBefore t) :=
  inferInstanceAs (Decidable (∀ u ∈ op.time, t ≤ u))

/-! ## Whose delivery it is -/

/-- Every delivery belongs to the application of its subscription. -/
def Owned (db : QueueDb) : Prop :=
  ∀ d ∈ db.deliveries, ∃ s ∈ db.subscriptions, s.id = d.subscriptionId ∧ s.appId = d.appId

variable {D : Digests} {db : QueueDb}

theorem Owned.next (hinv : Inv db) (h : Owned db) (op : QueueOp) : Owned ((queue D).next db op) := by
  intro d' hd'
  -- the owner in the old tables, of a stored delivery or of a new one
  have hold : ∃ s ∈ db.subscriptions, s.id = d'.subscriptionId ∧ s.appId = d'.appId := by
    rcases exec_mem hinv.deliveryIds op hd' with ⟨d, hd, hsame⟩ | ⟨hop, hnew⟩
    · rw [hsame.subscriptionId, hsame.appId]
      exact h d hd
    · obtain ⟨s, hs, hid, happ, -⟩ := entering_subscription hop hnew
      exact ⟨s, hs, hid, happ⟩
  obtain ⟨s, hs, hid, happ⟩ := hold
  obtain ⟨s', hs', hstep⟩ := hinv.drainsKept op s hs
  exact ⟨s', hs', hstep.id.trans hid, hstep.appId.trans happ⟩

variable {d : DeliveryRow} {now : Int}

theorem Owned.find (h : Owned db) (hd : d ∈ db.deliveries) :
    ∃ sub, db.findSubscription d.appId d.subscriptionId = some sub := by
  obtain ⟨s, hs, hid, happ⟩ := h d hd
  rw [← Option.isSome_iff_exists, QueueDb.findSubscription, find?_isSome]
  exact ⟨s, hs, by simp [hid, happ]⟩

theorem reach_owned (D : Digests) (ops : List QueueOp) : Owned (reach D ops) :=
  ((queue D).run_induction (P := fun db => Inv db ∧ Owned db) ⟨.empty, by simp [Owned]⟩
    (fun _ op h => ⟨h.1.next op, .next h.1 h.2 op⟩) ops).2

/-! ## After the lease has expired -/

/-- The delivery `d` is in flight with a lease that has expired at `now`, and its subscription drains. -/
structure Stranded (now : Int) (d : DeliveryRow) (db : QueueDb) : Prop where
  inv : Inv db
  stored : d ∈ db.deliveries
  lease : ∃ l, d.status = .inFlight l ∧ l.expiresAt ≤ now
  draining : Draining db d.subscriptionId

/-- A pull on another subscription leaves what is in flight alone. -/
theorem PullCase.mem_of_inFlight {gaps : Nat → List DeadLetterOp} {db' : QueueDb} {request : QueuePullRequest}
    {leased : List QueueDelivery} (h : PullCase D gaps db request leased db')
    (hnd : db.Keyed) (hd : d ∈ db.deliveries) (hflight : d.isInFlight = true)
    (hother : d.subscriptionId ≠ request.subscriptionId) : d ∈ db'.deliveries := by
  obtain ⟨l, hl⟩ := isInFlight_iff.mp hflight
  have hlive : d.status ≠ .deadLetter := by rw [hl]; simp
  have hprep : ∀ {sub db₁ written}, db.findSubscription request.appId request.subscriptionId = some sub →
      pullPrepare gaps sub.toQueueSubscription request.now db = (db₁, written) →
      Traces db written [] db₁ ∧ d ∈ db₁.deliveries := by
    intro sub db₁ written hsub hprepare
    refine pullPrepare_rule (J := fun db => d ∈ db.deliveries) hnd ?_
      (fun _ _ _ hmem => DeadLetterOp.mem_apply_of_live _ hmem hlive)
      (fun hmem => by rw [insertFailureCallbacks_deliveries]; exact hmem) ?_ hprepare
    · refine mem_updateWhere.mpr ⟨d, hd, if_neg ?_⟩ -- it belongs to another subscription
      rw [reclaimable, Bool.and_eq_true, decide_eq_true_eq, (findSubscription_some hsub).2.2]
      exact fun hhit => hother hhit.1
    · intro db₂ hmem
      refine mem_updateWhere.mpr ⟨d, hmem, if_neg ?_⟩
      simp [retentionExpired, DeliveryRow.isAvailable, hl]
  cases h with
  | draining => exact hd
  | full sub hsub db₁ db₂ written hprepare hgap =>
    rw [hgap]
    exact mem_interleave_of_live _ (hprep hsub hprepare).2 hlive
  | leasing sub hsub db₁ db₂ db₃ _ written hprepare hgap limit _ _ hgap' _ hlease =>
    obtain ⟨ht, hmem⟩ := hprep hsub hprepare
    obtain ⟨ht, hmem⟩ := interleave_rule (J := fun db => d ∈ db.deliveries)
      (fun (_ : _ ∈ gaps 3) _ hmem => DeadLetterOp.mem_apply_of_live _ hmem hlive) ht hmem
    obtain ⟨ht, hmem⟩ := interleave_rule (J := fun db => d ∈ db.deliveries)
      (fun (_ : _ ∈ gaps 4) _ hmem => DeadLetterOp.mem_apply_of_live _ hmem hlive) ht hmem
    rw [← hgap, ← hgap'] at ht hmem
    refine leaseSelected_rule (J := fun _ _ db => d ∈ db.deliveries)
      (fun _ _ _ _ _ hmem => DeadLetterOp.mem_apply_of_live _ hmem hlive) ?_ (ht.select rfl)
      (.select ht.ids) hlease hmem
    intro item e rest receipt acc db₄ ht hwait _ hmem
    -- what is leased was available
    refine mem_updateWhere.mpr ⟨d, hmem, if_neg fun hid => ?_⟩
    obtain ⟨hitem, havailable⟩ := hwait.stored (item, e) mem_cons_self
    obtain rfl : d = item := eq_of_key_eq ht.ids hmem hitem (of_decide_eq_true hid)
    rw [hl] at havailable
    cases havailable

/-- **No operation moves a stranded delivery.** -/
theorem Stranded.next (h : Stranded now d db) {op : QueueOp} (hop : op.NotBefore now) :
    Stranded now d ((queue D).next db op) := by
  refine ⟨h.inv.next op, ?_, h.lease, (h.inv.drainsKept op).draining h.draining⟩
  obtain ⟨l, hl, hexpired⟩ := h.lease
  have hflight : d.isInFlight = true := isInFlight_iff.mpr ⟨l, hl⟩
  have hcase := exec_cases D db op
  by_cases hpull : ∃ request gaps, op = .pull request gaps ∧ request.subscriptionId = d.subscriptionId
  · obtain ⟨request, gaps, rfl, hid⟩ := hpull
    rw [(exec_pull_draining D gaps h.inv.subscriptionIds (hid ▸ h.draining)).2]
    exact h.stored
  generalize (queue D).out db op = out, (queue D).next db op = db' at hcase
  cases hcase with
  | control _ hw =>
    rw [hw.deliveries]
    exact h.stored
  | publish rows hrows | complete rows hrows =>
    rw [hrows.deliveries]
    exact mem_append_left _ h.stored
  | settle | extend =>
    -- at or after the expiry there is no such receipt
    refine mem_updateWhere.mpr ⟨d, h.stored, if_neg ?_⟩
    have ht := hop _ rfl
    simp only [receiptTarget, DeliveryRow.holdsReceipt, hl, Bool.and_eq_true, decide_eq_true_eq]
    omega
  | pull hcase =>
    exact hcase.mem_of_inFlight h.inv.deliveryIds h.stored hflight fun hid => hpull ⟨_, _, rfl, hid.symm⟩
  | replay =>
    refine mem_updateWhere.mpr ⟨d, h.stored, if_neg fun htarget => ?_⟩
    rw [deadLetterTarget_status htarget] at hl
    cases hl
  | delete =>
    refine mem_filter.mpr ⟨h.stored, ?_⟩
    rw [Bool.not_eq_true', Bool.eq_false_iff]
    intro htarget
    rw [deadLetterTarget_status htarget] at hl
    cases hl

theorem Stranded.run (h : Stranded now d db) {later : List QueueOp} (hlater : ∀ op ∈ later, op.NotBefore now) :
    Stranded now d ((queue D).run db later) := by
  induction later generalizing db with
  | nil => exact h
  | cons op later ih =>
    exact ih (h.next (hlater op mem_cons_self)) fun op' hop' => hlater op' (mem_cons_of_mem _ hop')

/-! ## While the lease runs -/

/-- The worker's acknowledgement. -/
def acknowledge (receipt : String) : QueueSettlement where
  receipt := receipt
  disposition := .ack
  delay := 0
  reason := ""

/-- An acknowledgement with the receipt of a lease that has not expired takes the delivery out of
flight. -/
theorem acknowledge_leaves (hinv : Inv db) (hown : Owned db) (hd : d ∈ db.deliveries) {l : Lease}
    (hl : d.status = .inFlight l) {receipt : String} (hhash : queueReceiptHash D receipt = l.receiptHash)
    (hnow : now < l.expiresAt) :
    ∀ d' ∈ ((queue D).next db (.settle d.appId d.subscriptionId (acknowledge receipt) now)).deliveries,
      d'.id = d.id → d'.isInFlight = false := by
  obtain ⟨sub, hsub⟩ := hown.find hd
  obtain ⟨-, happ, hid⟩ := findSubscription_some hsub
  have htarget : receiptTarget D sub.appId sub.id receipt now d = true := by
    simp only [receiptTarget, DeliveryRow.holdsReceipt, hl, happ, hid, hhash, Bool.and_eq_true, decide_eq_true_eq]
    exact ⟨⟨trivial, trivial⟩, trivial, hnow⟩
  obtain ⟨d₁, hfind⟩ : ∃ d₁, db.deliveries.find? (receiptTarget D sub.appId sub.id receipt now) = some d₁ := by
    rw [← Option.isSome_iff_exists, find?_isSome]
    exact ⟨d, hd, htarget⟩
  -- its attempt is still open, so the history row is new
  have hnew : attemptTaken db.attempts (settleAttempt (acknowledge receipt) .acked now
      (settleRow sub.maxAttempts .acked now "" now d₁)) = false := by
    rw [attemptTaken, any_eq_false]
    intro a ha hkey
    exact hinv.closing_not_taken (mem_of_find?_eq_some hfind)
      (receiptTarget_inFlight (find?_some hfind)) ha rfl rfl rfl (settleAttempt_closes _ _ _ _)
      (of_decide_eq_true hkey)
  have hnext : ((queue D).next db (.settle d.appId d.subscriptionId (acknowledge receipt) now)).deliveries
      = updateWhere (receiptTarget D sub.appId sub.id receipt now)
        (settleRow sub.maxAttempts .acked now "" now) db.deliveries := by
    have hsettle : settleQueueDelivery D sub.toQueueSubscription (acknowledge receipt) now db
        = .ok (settledStatus (settleRow sub.maxAttempts .acked now "" now d₁),
            settledDb D sub.toQueueSubscription (acknowledge receipt) .acked now now d₁ db) := by
      have hsettled : settleTarget (acknowledge receipt) now = some (.acked, now) := rfl
      have hfound : db.deliveries.find? (receiptTarget D sub.appId sub.id (acknowledge receipt).receipt now)
          = some d₁ := hfind
      simp only [settleQueueDelivery, hsettled, hfound]
      exact if_neg (Bool.eq_false_iff.mp hnew)
    show (exec D db _).2.deliveries = _
    rw [exec, settleStep, hsub]
    dsimp only
    rw [hsettle]
    rfl
  intro d' hd' hid'
  rw [hnext] at hd'
  rcases mem_updateWhere_cases hd' with ⟨d₀, -, -, rfl⟩ | ⟨hd₀, hmiss⟩
  · exact settleRow_isInFlight _ _ _ _ _ d₀
  · obtain rfl : d' = d := eq_of_key_eq hinv.deliveryIds hd₀ hd hid'
    exact absurd htarget hmiss

/-! ## The two together -/

/-- Some operations from `now` on take the delivery `id` out of flight. -/
def CanLeave (D : Digests) (db : QueueDb) (now : Int) (id : String) : Prop :=
  ∃ later : List QueueOp, (∀ op ∈ later, op.NotBefore now) ∧
    ∀ d ∈ ((queue D).run db later).deliveries, d.id = id → d.isInFlight = false

theorem Stranded.not_canLeave (h : Stranded now d db) : ¬ CanLeave D db now d.id := by
  rintro ⟨later, hlater, hleft⟩
  obtain ⟨l, hl, -⟩ := h.lease
  have hflight := hleft d (h.run hlater).stored rfl
  rw [isInFlight_iff.mpr ⟨l, hl⟩] at hflight
  cases hflight

/-- **A draining delivery can leave exactly while its lease runs.** In every reachable state, for every
delivery in flight on a subscription that drains and every time `now`: some operations from `now` on take it
out of flight if and only if its lease has not expired at `now`. -/
theorem draining_leaves_iff (D : Digests) (ops : List QueueOp) (now : Int) (d : DeliveryRow) (l : Lease)
    (hd : d ∈ (reach D ops).deliveries) (hl : d.status = .inFlight l)
    (hdraining : Draining (reach D ops) d.subscriptionId) :
    CanLeave D (reach D ops) now d.id ↔ now < l.expiresAt := by
  have hinv := reach_inv D ops
  constructor
  · intro hleave
    by_contra hexpired
    exact Stranded.not_canLeave ⟨hinv, hd, ⟨l, hl, not_lt.mp hexpired⟩, hdraining⟩ hleave
  · intro hnow
    -- the lease was granted under a receipt, which its worker has
    have hholds : Holds (reach D ops) d.id d.generation d.attempts l.receiptHash :=
      ⟨d, hd, rfl, rfl, rfl, l, hl, rfl⟩
    obtain ⟨_, _, _, receipt, -, hhash, -⟩ := holds_issued hholds
    refine ⟨[.settle d.appId d.subscriptionId (acknowledge receipt) now], ?_, ?_⟩
    · intro op hop u hu
      rw [mem_singleton.mp hop] at hu
      cases hu
      exact le_refl now
    · exact acknowledge_leaves hinv (reach_owned D ops) hd hl hhash hnow

/-! A worker takes one delivery and dies; a minute later its lease is over, with the drain begun in
between. -/

def strandedRun : List QueueOp :=
  [.createSubscription sampleSubscription, .publish (samplePublication "evt_1" 0), samplePull 0 ["qrc_1"],
    .beginDrain "app_1" "qsub_1" (1 * second) (31 * second)]

/-- The delivery as it stands at the end of `strandedRun`. -/
def strandedDelivery : DeliveryRow :=
  leaseRow
    { subscriptionId := "qsub_1"
      now := 0
      expiresAt := 60 * second
      maxExpiresAt := 3600 * second }
    (sampleDigests.sha256 "qrc_1") (publishedDelivery sampleDigests (samplePublication "evt_1" 0) sampleSubscription)
    (publishedDelivery sampleDigests (samplePublication "evt_1" 0) sampleSubscription)

theorem expired_delivery_stuck :
    strandedDelivery ∈ (reach sampleDigests strandedRun).deliveries ∧
      Draining (reach sampleDigests strandedRun) strandedDelivery.subscriptionId ∧
      ¬ CanLeave sampleDigests (reach sampleDigests strandedRun) (61 * second) strandedDelivery.id := by
  have hstored : strandedDelivery ∈ (reach sampleDigests strandedRun).deliveries := by decide +kernel
  have hdraining : Draining (reach sampleDigests strandedRun) strandedDelivery.subscriptionId := by
    decide +kernel
  exact ⟨hstored, hdraining,
    Stranded.not_canLeave ⟨reach_inv _ _, hstored, ⟨_, rfl, by decide⟩, hdraining⟩⟩

theorem draining_leaves_iff_stranded :
    CanLeave sampleDigests (reach sampleDigests strandedRun) (59 * second) strandedDelivery.id ↔
      59 * second < 60 * second :=
  draining_leaves_iff sampleDigests strandedRun (59 * second) strandedDelivery _ (by decide +kernel) rfl
    (by decide +kernel)

end RelayHub.Queue
