import RelayHub.Queue.Fencing

/-! # RelayHub queue — the attempt budget

`attempts` counts the leases of the current generation of a delivery. It grows with each lease and is
compared with `max_attempts` only when a lease is closed: a retry (`SettleQueueDeliveries`) or an
expired lease (`reclaimExpired`) that finds the budget used up dead-letters the delivery. The policy
may change between the lease and its closing, so the bound on the number of leases is the largest
`max_attempts` in force since the generation began, `attemptCap`.

`Budget` is the invariant. A delivery waits only with attempts to spare: it was just enqueued or
replayed, and `max_attempts` is at least 1, or the transaction that closed its last lease read a
larger `max_attempts`. -/

namespace RelayHub.Queue

open List Table

/-! ## Closing a lease -/

/-- How a transaction that reads `maxAttempts` closes the lease of `d` for another try. -/
structure ClosedUnder (maxAttempts : Int) (d d' : DeliveryRow) : Prop where
  exhausted : (d'.status = .deadLetter ∧ d'.lastReason = some "max_attempts_exhausted") ↔ maxAttempts ≤ d.attempts
  otherwise : ¬ maxAttempts ≤ (d.attempts : Int) → d'.status = .available

variable {d : DeliveryRow}

theorem reclaimRow_closed (sub : QueueSubscription) (now : Int) (h : d.isInFlight = true) :
    ClosedUnder sub.maxAttempts d (reclaimRow sub now d) := by
  obtain ⟨l, hl⟩ := isInFlight_iff.mp h
  unfold reclaimRow
  rw [hl]
  by_cases hmax : sub.maxAttempts ≤ (d.attempts : Int)
  · exact ⟨by simp [hmax], fun hnot => absurd hmax hnot⟩
  · simp only [hmax]
    exact ⟨by simp [hmax], fun _ => rfl⟩

theorem settleRow_closed (maxAttempts availableAt : Int) (reason : String) (now : Int) (d : DeliveryRow) :
    ClosedUnder maxAttempts d (settleRow maxAttempts .available availableAt reason now d) := by
  unfold settleRow retryExhausted
  by_cases hmax : maxAttempts ≤ (d.attempts : Int)
  · exact ⟨by simp [hmax], fun hnot => absurd hmax hnot⟩
  · exact ⟨by simp [hmax], fun _ => by simp [hmax]⟩

/-! ## The budget -/

/-- The `max_attempts` in force on a subscription. -/
def maxAttemptsOf (db : QueueDb) (subscriptionId : String) : Int :=
  largest ((db.subscriptions.filter fun x => x.id = subscriptionId).map fun x => x.maxAttempts)

variable {db : QueueDb}

theorem le_maxAttemptsOf {x : SubscriptionRow} (h : x ∈ db.subscriptions) : x.maxAttempts ≤ maxAttemptsOf db x.id :=
  le_largest (mem_map.mpr ⟨x, mem_filter.mpr ⟨h, by simp⟩, rfl⟩)

/-- A lease of generation `g`. -/
def ofGeneration (g : Nat) (x : Nat × Nat) : Bool := x.1 = g

/-- `C` bounds the leases of each generation of each delivery, with one to spare for a delivery that
waits; and `C` covers the policies in force. -/
structure Budget (C : String → Nat → Int) (db : QueueDb) : Prop where
  waiting : ∀ d ∈ db.deliveries, d.status = .available → (d.attempts : Int) < C d.id d.generation
  leases : ∀ d ∈ db.deliveries, ∀ g, ((leasedRows db.attempts d.id).countP (ofGeneration g) : Int) ≤ C d.id g
  covers : ∀ d ∈ db.deliveries, ∀ x ∈ db.subscriptions, x.id = d.subscriptionId → ∀ g, x.maxAttempts ≤ C d.id g

theorem leaseNumbers_eq (attempts : List AttemptRow) (id : String) (g : Nat) : leaseNumbers (deliveryLog attempts id) g
      = ((leasedRows attempts id).filter (ofGeneration g)).map Prod.snd := by
  unfold leaseNumbers leasedRows
  rw [filter_map, map_map, filter_filter]
  rfl

theorem countP_leasedRows (attempts : List AttemptRow) (id : String) (g : Nat) :
    (leasedRows attempts id).countP (ofGeneration g) = (leaseNumbers (deliveryLog attempts id) g).length := by
  rw [leaseNumbers_eq, length_map, countP_eq_length_filter]

section Effects

variable {D : Digests} {C : String → Nat → Int} {db db' : QueueDb} {gs : List Grant}

/-- An update that lets rows wait again only with attempts to spare. -/
theorem Budget.waiting_update (h : Budget C db) {p : DeliveryRow → Bool}
    {f : DeliveryRow → DeliveryRow} (hd : db'.deliveries = updateWhere p f db.deliveries)
    (hspare : ∀ d ∈ db.deliveries, p d = true → (f d).status = .available →
      ((f d).attempts : Int) < C (f d).id (f d).generation) :
    ∀ d ∈ db'.deliveries, d.status = .available → (d.attempts : Int) < C d.id d.generation := by
  intro d' hd' havailable
  rw [hd] at hd'
  rcases mem_updateWhere_cases hd' with ⟨d, hmem, hp, rfl⟩ | ⟨hmem, -⟩
  · exact hspare d hmem hp havailable
  · exact h.waiting d' hmem havailable

variable (he : Effect D db gs db')

include he

theorem Effect.waiting (h : Budget C db) :
    ∀ d ∈ db'.deliveries, d.status = .available → (d.attempts : Int) < C d.id d.generation := by
  cases he with
  | reclaim sub hsub now =>
    refine h.waiting_update rfl fun d hd hp havailable => ?_
    rw [(reclaimRow_same _ now d).id, reclaimRow_attempts, reclaimRow_generation]
    -- a reclaimed delivery waits again only below the budget
    have hclosed := reclaimRow_closed sub.toQueueSubscription now (reclaimable_inFlight hp)
    have hbelow : ¬ sub.maxAttempts ≤ (d.attempts : Int) := fun hmax => by
      rw [(hclosed.exhausted.mpr hmax).1] at havailable
      cases havailable
    simp only [reclaimable, Bool.and_eq_true, decide_eq_true_eq] at hp
    have hcap := h.covers d hd sub hsub hp.1.symm d.generation
    omega
  | failureCallbacks =>
    rw [insertFailureCallbacks_deliveries]
    exact h.waiting
  | expire | lease terms receipt item hitem havailable =>
    exact h.waiting_update rfl fun d _ _ havailable => by cases havailable
  | settle sub hsub settlement next availableAt now d =>
    refine h.waiting_update rfl fun e he hp havailable => ?_
    have hnext : next = .available ∧ ¬ sub.maxAttempts ≤ (e.attempts : Int) := by
      unfold settleRow retryExhausted at havailable
      dsimp only at havailable
      split at havailable
      · cases havailable
      next hspare =>
      cases next
      · cases havailable
      · exact ⟨rfl, by simpa using hspare⟩
      · cases havailable
    simp only [receiptTarget, Bool.and_eq_true, decide_eq_true_eq] at hp
    have hcap := h.covers e he sub hsub hp.1.1.symm e.generation
    show (e.attempts : Int) < C e.id e.generation
    omega
  | extend appId subscriptionId extension now =>
    refine h.waiting_update rfl fun d _ hp havailable => ?_
    have hflight := (extendRow_keeps extension.extension now d).2.2
    rw [receiptTarget_inFlight hp, isInFlight_of_available havailable] at hflight
    cases hflight
  | replay =>
    refine h.waiting_update rfl fun d hd hp _ => ?_
    -- the new generation starts with no attempts, and every policy allows one
    simp only [deadLetterTarget, Bool.and_eq_true, decide_eq_true_eq] at hp
    obtain ⟨x, hx⟩ := Option.isSome_iff_exists.mp hp.1.1.1
    obtain ⟨hmem, -, hid⟩ := findSubscription_some hx
    have hcap := h.covers d hd x hmem (hid.trans hp.1.1.2.symm) (d.generation + 1)
    have hone := x.check.maxAttempts.1
    show ((0 : Nat) : Int) < C d.id (d.generation + 1)
    omega
  | delete =>
    exact fun d hd => h.waiting d (mem_of_mem_filter hd)

theorem Effect.leases (hinv : Inv db) (h : Budget C db) :
    ∀ d ∈ db'.deliveries, ∀ g, ((leasedRows db'.attempts d.id).countP (ofGeneration g) : Int) ≤ C d.id g := by
  intro d' hd' g
  obtain ⟨d, hd, hsame⟩ := he.mem_same hd'
  have hbefore := h.leases d hd g
  rw [← hsame.id] at hbefore
  rw [he.leasedRows_eq hinv hd', countP_append]
  cases he with
  | lease terms receipt item hitem havailable =>
    by_cases hid : item.id = d'.id
    · obtain rfl : item = d := eq_of_key_eq hinv.deliveryIds hitem hd (hid.trans hsame.id)
      have hnow : (leasedRows db.attempts item.id).countP (ofGeneration item.generation) = item.attempts := by
        rw [countP_leasedRows, (hinv.log item hitem).leased, length_range']
      have hspare := h.waiting item hitem havailable
      rw [hid] at hnow hspare
      by_cases hg : item.generation = g
      · rw [hg] at hnow hspare
        have hadded : (grantsOf [⟨item.id, item.generation, item.attempts + 1, receipt⟩]
            d'.id).countP (ofGeneration g) = 1 := by
          simp [grantsOf, hid, ofGeneration, hg]
        omega
      · simpa [grantsOf, hid, ofGeneration, hg] using hbefore
    · simpa [grantsOf, hid] using hbefore
  | _ => simpa [grantsOf] using hbefore

theorem Effect.budget (hinv : Inv db) (h : Budget C db) : Budget C db' := by
  refine ⟨he.waiting h, he.leases hinv h, fun d' hd' x hx hid g => ?_⟩
  obtain ⟨d, hd, hsame⟩ := he.mem_same hd'
  rw [he.subscriptions] at hx
  rw [hsame.id]
  exact h.covers d hd x hx (hid.trans hsame.subscriptionId) g

end Effects

/-! ## Whole runs -/

/-- The largest `max_attempts` in force since generation `g` of the delivery began, with one more
state: it starts over when that generation has not begun. -/
def capAfter (db : QueueDb) (id : String) (g : Nat) (cap : Int) : Int :=
  match db.deliveries.find? fun d => d.id = id with
  | none => 0
  | some d => if g ≤ d.generation then max cap (maxAttemptsOf db d.subscriptionId) else 0

/-- The largest `max_attempts` in force on its subscription since generation `g` of the delivery `id`
began. -/
def attemptCap (D : Digests) (ops : List QueueOp) (id : String) (g : Nat) : Int :=
  ((queue D).transitions {} ops).foldl (fun cap t => capAfter t.post id g cap) 0

theorem attemptCap_concat (D : Digests) (ops : List QueueOp) (op : QueueOp) (id : String) (g : Nat) :
    attemptCap D (ops ++ [op]) id g = capAfter (reach D (ops ++ [op])) id g (attemptCap D ops id g) := by
  unfold attemptCap
  rw [Mealy.transitions_concat, foldl_append, reach_concat]
  rfl

theorem capAfter_stored (hnd : db.Keyed) (hd : d ∈ db.deliveries) (g : Nat) (cap : Int) :
    capAfter db d.id g cap = if g ≤ d.generation then max cap (maxAttemptsOf db d.subscriptionId) else 0 := by
  rw [capAfter, find?_key_eq_some hnd hd]

/-- The budget of a state: what the run keeps. -/
structure WithinCap (D : Digests) (ops : List QueueOp) : Prop where
  waiting : ∀ d ∈ (reach D ops).deliveries, d.status = .available →
    (d.attempts : Int) < attemptCap D ops d.id d.generation
  leases : ∀ d ∈ (reach D ops).deliveries, ∀ g,
    ((leasedRows (reach D ops).attempts d.id).countP (ofGeneration g) : Int) ≤ attemptCap D ops d.id g

variable {D : Digests}

/-- It is enough to stay within the cap before the step or the policy after it. -/
theorem WithinCap.concat {ops : List QueueOp} {op : QueueOp}
    (hwaiting : ∀ d ∈ (reach D (ops ++ [op])).deliveries, d.status = .available → (d.attempts : Int) <
      max (attemptCap D ops d.id d.generation) (maxAttemptsOf (reach D (ops ++ [op])) d.subscriptionId))
    (hleases : ∀ d ∈ (reach D (ops ++ [op])).deliveries, ∀ g ≤ d.generation,
      ((leasedRows (reach D (ops ++ [op])).attempts d.id).countP (ofGeneration g) : Int) ≤
      max (attemptCap D ops d.id g) (maxAttemptsOf (reach D (ops ++ [op])) d.subscriptionId)) :
    WithinCap D (ops ++ [op]) := by
  have hinv := reach_inv D (ops ++ [op])
  refine ⟨fun d hd havailable => ?_, fun d hd g => ?_⟩
  · rw [attemptCap_concat, capAfter_stored hinv.deliveryIds hd, if_pos (le_refl _)]
    exact hwaiting d hd havailable
  · rw [attemptCap_concat, capAfter_stored hinv.deliveryIds hd]
    by_cases hg : g ≤ d.generation
    · rw [if_pos hg]
      exact hleases d hd g hg
    · rw [if_neg hg, countP_leasedRows, (hinv.log d hd).leaseNumbers_later (by omega)]
      exact le_refl _

theorem WithinCap.effects {ops : List QueueOp} {op : QueueOp} {gs : List Grant} (h : WithinCap D ops)
    (he : Effects D (reach D ops) gs (reach D (ops ++ [op]))) : WithinCap D (ops ++ [op]) := by
  have hinv := reach_inv D ops
  -- no effect changes a policy, so the cap with the policies before the operation will do
  set C : String → Nat → Int := fun id g => max (attemptCap D ops id g)
    (match (reach D ops).deliveries.find? fun d => d.id = id with
    | none => 0
    | some d => maxAttemptsOf (reach D ops) d.subscriptionId) with hC
  have hstored : ∀ d ∈ (reach D ops).deliveries, ∀ g, C d.id g
      = max (attemptCap D ops d.id g) (maxAttemptsOf (reach D ops) d.subscriptionId) := by
    intro d hd g
    simp only [hC, find?_key_eq_some hinv.deliveryIds hd]
  have hstart : Budget C (reach D ops) := by
    refine ⟨fun d hd havailable => ?_, fun d hd g => ?_, fun d hd x hx hid g => ?_⟩
    · exact lt_of_lt_of_le (h.waiting d hd havailable) (le_max_left _ _)
    · exact (h.leases d hd g).trans (le_max_left _ _)
    · rw [hstored d hd, ← hid]
      exact (le_maxAttemptsOf hx).trans (le_max_right _ _)
  obtain ⟨-, hsubs, hrows, hend⟩ := he.induction
    (P := fun db _ => Inv db ∧ db.subscriptions = (reach D ops).subscriptions ∧
      (∀ d' ∈ db.deliveries, ∃ d ∈ (reach D ops).deliveries, SameDelivery d d') ∧ Budget C db) []
    (fun hstep hp => by
      obtain ⟨hinv, hsubs, hrows, hbudget⟩ := hp
      refine ⟨hstep.inv hinv, hstep.subscriptions.trans hsubs, fun d' hd' => ?_, hstep.budget hinv hbudget⟩
      obtain ⟨d₁, hd₁, hsame₁⟩ := hstep.mem_same hd'
      obtain ⟨d, hd, hsame⟩ := hrows d₁ hd₁
      exact ⟨d, hd, hsame.trans hsame₁⟩)
    ⟨hinv, rfl, fun d hd => ⟨d, hd, .refl d⟩, hstart⟩
  have hcap : ∀ d' ∈ (reach D (ops ++ [op])).deliveries, ∀ g, C d'.id g
      = max (attemptCap D ops d'.id g) (maxAttemptsOf (reach D (ops ++ [op])) d'.subscriptionId) := by
    intro d' hd' g
    obtain ⟨d, hd, hsame⟩ := hrows d' hd'
    rw [hsame.id, hstored d hd, hsame.subscriptionId]
    unfold maxAttemptsOf
    rw [hsubs]
  refine .concat (fun d hd havailable => ?_) fun d hd g _ => ?_
  · rw [← hcap d hd]
    exact hend.waiting d hd havailable
  · rw [← hcap d hd]
    exact hend.leases d hd g

theorem reach_withinCap (D : Digests) (ops : List QueueOp) : WithinCap D ops := by
  induction ops using reverseRecOn with
  | nil =>
    constructor
    · intro d hd
      cases hd
    · intro d hd
      cases hd
  | append_singleton ops op ih =>
    have hop := reach_concat_operation D ops op
    generalize ((queue D).out (reach D ops) op).grants = gs at hop
    generalize hpost : reach D (ops ++ [op]) = db' at hop
    cases hop with
    | effects he => exact ih.effects (hpost ▸ he)
    | control hw =>
      refine .concat (fun d hd havailable => ?_) fun d hd g _ => ?_
      · rw [hpost, hw.deliveries] at hd
        exact lt_of_lt_of_le (ih.waiting d hd havailable) (le_max_left _ _)
      · rw [hpost, hw.deliveries] at hd
        rw [hpost, hw.attempts]
        exact (ih.leases d hd g).trans (le_max_left _ _)
    | enqueue rows hrows =>
      have hinv := reach_inv D ops
      refine .concat (fun d hd havailable => ?_) fun d hd g _ => ?_
      · rw [hpost] at hd
        rcases hrows.mem_cases hd with hd | hd
        · exact lt_of_lt_of_le (ih.waiting d hd havailable) (le_max_left _ _)
        -- a new delivery has its first attempt to spare
        obtain ⟨x, hx, hid⟩ := hrows.owner d hd
        have hpolicy : x.maxAttempts ≤ maxAttemptsOf db' x.id :=
          le_maxAttemptsOf (hrows.subscriptions ▸ hx)
        have hone := x.check.maxAttempts.1
        rw [(hrows.new d hd).attempts, hpost, ← hid]
        refine lt_of_lt_of_le ?_ (le_max_right _ _)
        omega
      · rw [hpost] at hd ⊢
        rw [hrows.attempts]
        rcases hrows.mem_cases hd with hd | hd
        · exact (ih.leases d hd g).trans (le_max_left _ _)
        · rw [hinv.leasedRows_fresh (hrows.fresh hinv.deliveryIds d hd)]
          exact (largest_nonneg _).trans (le_max_right _ _)

/-- A retry that is accepted closes the lease under the policy it reads. -/
theorem retry_closes {appId subscriptionId : String} {settlement : QueueSettlement} {now : Int}
    (hretry : settlement.disposition = .retry)
    (h : ((queue D).out db (.settle appId subscriptionId settlement now)).accepted = true) :
    ∃ sub, db.findSubscription appId subscriptionId = some sub ∧
      (∃ d ∈ db.deliveries, receiptTarget D sub.appId sub.id settlement.receipt now d = true) ∧
      ∀ d ∈ db.deliveries, receiptTarget D sub.appId sub.id settlement.receipt now d = true →
        ∃ d' ∈ ((queue D).next db (.settle appId subscriptionId settlement now)).deliveries,
          d'.id = d.id ∧ ClosedUnder sub.maxAttempts d d' := by
  obtain ⟨sub, next, availableAt, d₀, hsub, hnext, hfind, hpost⟩ := settle_accepted h
  have havailable : next = .available := by
    unfold settleTarget at hnext
    rw [hretry] at hnext
    cases hnext
    rfl
  subst havailable
  refine ⟨sub, hsub, ⟨d₀, mem_of_find?_eq_some hfind, find?_some hfind⟩, ?_⟩
  intro d hd htarget
  rw [hpost]
  refine ⟨settleRow sub.maxAttempts .available availableAt settlement.reason now d, ?_, rfl,
    settleRow_closed sub.maxAttempts availableAt settlement.reason now d⟩
  exact mem_updateWhere.mpr ⟨d, hd, if_pos htarget⟩

/-- How the history records that a lease of `d` has expired. -/
structure ExpiryOf (maxAttempts : Int) (d : DeliveryRow) (a : AttemptRow) : Prop where
  key : (a.deliveryId, a.generation, a.attempt) = (d.id, d.generation, d.attempts)
  exhausted : (a.outcome = .deadLetter ∧ a.reason = some "max_attempts_exhausted") ↔ maxAttempts ≤ d.attempts
  otherwise : ¬ maxAttempts ≤ (d.attempts : Int) → a.outcome = .visibilityTimeout

theorem reclaimAttempt_expiry (sub : QueueSubscription) (now : Int) (h : d.isInFlight = true) :
    ExpiryOf sub.maxAttempts d (reclaimAttempt now (reclaimRow sub now d)) := by
  obtain ⟨l, hl⟩ := isInFlight_iff.mp h
  unfold reclaimRow
  rw [hl]
  by_cases hmax : sub.maxAttempts ≤ (d.attempts : Int)
  · exact ⟨by simp [reclaimAttempt, hmax], by simp [reclaimAttempt, hmax, DeliveryRow.isDeadLetter], (absurd hmax ·)⟩
  · simp only [hmax]
    exact ⟨rfl, by simp [reclaimAttempt, DeliveryRow.isDeadLetter, not_le.mp hmax], fun _ => rfl⟩

/-- Between the statements of a pull nothing deletes the history of a delivery that the pull has locked. -/
theorem mem_interleave_attempts {locked : List String} {a : AttemptRow} (hlocked : a.deliveryId ∈ locked)
    (ops : List DeadLetterOp) {db : QueueDb} (ha : a ∈ db.attempts) : a ∈ (interleave locked ops db).attempts := by
  induction ops generalizing db with
  | nil => exact ha
  | cons op ops ih =>
    refine ih ?_
    cases op with
    | replay => exact ha
    | delete appId subscriptionId ids =>
      refine mem_filter.mpr ⟨ha, ?_⟩
      rw [Bool.not_eq_true', any_eq_false]
      rintro x - hx
      simp only [deadLetterTarget, Bool.and_eq_true, decide_eq_true_eq, contains_iff_mem, mem_filter] at hx
      simp [hx.2, hlocked] at hx

/-- **The expiry is recorded**: the row that the reclaim statement writes is there when the pull commits. -/
theorem PullCase.expiry {gaps : Nat → List DeadLetterOp} {request : QueuePullRequest} {leased : List QueueDelivery}
    {db' : QueueDb} {sub : SubscriptionRow} (hinv : Inv db) (h : PullCase D gaps db request leased db')
    (hsub : db.findSubscription request.appId request.subscriptionId = some sub) (hopen : sub.drainingAt = none)
    (hd : d ∈ db.deliveries) (hexpired : reclaimable sub.id request.now d = true) :
    ∃ a ∈ db'.attempts, ExpiryOf sub.maxAttempts d a := by
  set a := reclaimAttempt request.now (reclaimRow sub.toQueueSubscription request.now d)
  refine ⟨a, ?_, reclaimAttempt_expiry _ _ (reclaimable_inFlight hexpired)⟩
  have hid : a.deliveryId = d.id := (reclaimRow_same _ _ d).id
  have hwritten : a ∈ (reclaimExpired sub.toQueueSubscription request.now db).attempts := by
    rw [hinv.reclaimExpired_attempts]
    exact mem_append_right _ (mem_map_of_mem (mem_filter.mpr ⟨hd, hexpired⟩))
  have hlocked : a.deliveryId ∈ idsWhere (reclaimable sub.id request.now) db :=
    hid ▸ mem_map_of_mem (mem_filter.mpr ⟨hd, hexpired⟩)
  have hprepared : ∀ {db₁ written}, pullPrepare gaps sub.toQueueSubscription request.now db = (db₁, written) →
      a ∈ db₁.attempts ∧ a.deliveryId ∈ written := by
    rintro _ _ ⟨⟩
    refine ⟨mem_interleave_attempts (mem_append_left _ hlocked) _ (mem_interleave_attempts hlocked _ ?_),
      mem_append_left _ hlocked⟩
    rw [insertFailureCallbacks_attempts]
    exact mem_interleave_attempts hlocked _ hwritten
  cases h with
  | draining sub' hsub' hdraining =>
    cases hsub.symm.trans hsub'
    rw [hopen] at hdraining
    cases hdraining
  | full sub' hsub' db₁ db₂ written hprepare hgap =>
    cases hsub.symm.trans hsub'
    obtain ⟨ha, hlocked⟩ := hprepared hprepare
    exact hgap ▸ mem_interleave_attempts hlocked _ ha
  | leasing sub' hsub' db₁ db₂ db₃ _ written hprepare hgap limit _ _ hgap' _ hlease =>
    cases hsub.symm.trans hsub'
    obtain ⟨ha, hlocked⟩ := hprepared hprepare
    refine leaseSelected_induction (I := fun _ _ _ db => a ∈ db.attempts)
      (fun hmem => mem_append_left _ (mem_interleave_attempts hlocked _ hmem)) [] hlease ?_
    rw [hgap', hgap]
    exact mem_interleave_attempts hlocked _ (mem_interleave_attempts hlocked _ ha)

/-- **The attempt budget.** In every run, with any policy updates:

* the leases of one generation of a delivery are numbered 1, 2, 3, … and are at most as many as the
  largest `max_attempts` in force since the generation began;
* a retry that is accepted dead-letters the delivery with `max_attempts_exhausted` exactly when the
  attempts have reached the `max_attempts` it reads, and makes it available otherwise;
* so does the reclaim statement of a pull with a lease that has expired; and when the pull has committed,
  the history has the row that says so. -/
theorem attempt_budget (D : Digests) (ops : List QueueOp) :
    (∀ d ∈ (reach D ops).deliveries, ∀ g, ∃ m : Nat,
      ((grantsOf (grantLog D ops) d.id).filter (ofGeneration g)).map Prod.snd = List.range' 1 m ∧
      (m : Int) ≤ attemptCap D ops d.id g) ∧
    (∀ before appId subscriptionId settlement now after,
      ops = before ++ .settle appId subscriptionId settlement now :: after →
      settlement.disposition = .retry →
      ((queue D).out (reach D before) (.settle appId subscriptionId settlement now)).accepted = true →
      ∃ sub, (reach D before).findSubscription appId subscriptionId = some sub ∧
        (∃ d ∈ (reach D before).deliveries, receiptTarget D sub.appId sub.id settlement.receipt now d = true) ∧
        ∀ d ∈ (reach D before).deliveries, receiptTarget D sub.appId sub.id settlement.receipt now d = true →
          ∃ d' ∈ (reach D (before ++ [.settle appId subscriptionId settlement now])).deliveries,
            d'.id = d.id ∧ ClosedUnder sub.maxAttempts d d') ∧
    (∀ before request gaps after, ops = before ++ .pull request gaps :: after →
      ∀ sub, (reach D before).findSubscription request.appId request.subscriptionId = some sub →
      ∀ d ∈ (reach D before).deliveries, reclaimable sub.id request.now d = true →
        (∃ d' ∈ (reclaimExpired sub.toQueueSubscription request.now (reach D before)).deliveries,
          d'.id = d.id ∧ ClosedUnder sub.maxAttempts d d') ∧
        ∀ leased, (queue D).out (reach D before) (.pull request gaps) = .pulled leased → sub.drainingAt = none →
          ∃ a ∈ (reach D (before ++ [.pull request gaps])).attempts, ExpiryOf sub.maxAttempts d a) := by
  refine ⟨fun d hd g => ?_, ?_, ?_⟩
  · have hlog := (reach_inv D ops).log d hd
    obtain ⟨m, hm⟩ := hlog.numbered g
    have hcap := (reach_withinCap D ops).leases d hd g
    rw [countP_leasedRows, hm, length_range'] at hcap
    refine ⟨m, ?_, hcap⟩
    rw [← (grantLog_eq_history D ops).1 d hd, ← leaseNumbers_eq, hm]
  · intro before appId subscriptionId settlement now after _ hretry haccepted
    rw [reach_concat]
    exact retry_closes hretry haccepted
  · intro before request gaps after _ sub hsub d hd hreclaim
    refine ⟨⟨reclaimRow sub.toQueueSubscription request.now d, ?_, (reclaimRow_same _ _ d).id,
      reclaimRow_closed _ _ (reclaimable_inFlight hreclaim)⟩, fun leased hout hopen => ?_⟩
    · exact mem_updateWhere.mpr ⟨d, hd, if_pos hreclaim⟩
    · have hexec : (queue D).exec (reach D before) (.pull request gaps) =
          commit .pulled (reach D before) (pullQueueDeliveries D gaps (reach D before) request) := rfl
      rw [reach_concat, Mealy.next, hexec]
      rw [Mealy.out, hexec] at hout
      cases hpull : pullQueueDeliveries D gaps (reach D before) request with
      | error =>
        rw [hpull] at hout
        cases hout
      | ok => exact (pullQueueDeliveries_cases hpull).expiry (reach_inv D before) hsub hopen hd hreclaim

/-- A delivery with two attempts, retried twice. -/
def retriedRun : List QueueOp :=
  [.createSubscription sampleSubscription, .publish (samplePublication "evt_1" 0),
    samplePull second ["qrc_1"], sampleSettle "qrc_1" .retry (2 * second),
    samplePull (3 * second) ["qrc_2"], sampleSettle "qrc_2" .retry (4 * second)]

theorem attempt_budget_retried :
    attemptCap sampleDigests retriedRun "qdl_e334738e77c1801e09b19d74af8d6104" 1 = 2 ∧
    grantsOf (grantLog sampleDigests retriedRun) "qdl_e334738e77c1801e09b19d74af8d6104" = [(1, 1), (1, 2)] ∧
    ∀ d ∈ (reach sampleDigests retriedRun).deliveries, ∀ g, ∃ m : Nat,
      ((grantsOf (grantLog sampleDigests retriedRun) d.id).filter (ofGeneration g)).map Prod.snd
        = List.range' 1 m ∧ (m : Int) ≤ attemptCap sampleDigests retriedRun d.id g :=
  ⟨by decide, by decide, (attempt_budget sampleDigests retriedRun).1⟩

end RelayHub.Queue
