import RelayHub.Queue.Grants

/-! # RelayHub queue — receipt fencing

A receipt stands for one lease of one delivery. `Holds` says that a delivery still has that lease:
the same generation, the same attempt number and the receipt's hash. No effect but a lease makes a
delivery hold a hash (`Effect.holds_cases`), so a held hash goes back to the pull that issued it,
without a break (`holds_issued`). When the receipts of a run are pairwise different and hash to
different values, each hash is held by one delivery at most (`holds_unique`), and once it is given up
it never comes back (`not_holds_of_later`). -/

namespace RelayHub.Queue

open List Table

/-! ## Holding a lease -/

/-- The delivery has the lease with the receipt hash `hash`, taken as attempt `attempt` of
`generation`. -/
def Holds (db : QueueDb) (id : String) (generation attempt : Nat) (hash : String) : Prop :=
  ∃ d ∈ db.deliveries, d.id = id ∧ d.generation = generation ∧ d.attempts = attempt ∧
    ∃ l, d.status = .inFlight l ∧ l.receiptHash = hash

variable {db' : QueueDb} {hash id : String} {g n : Nat} {p : DeliveryRow → Bool} {f : DeliveryRow → DeliveryRow}

theorem Holds.update_cases (db : QueueDb) (hd : db'.deliveries = updateWhere p f db.deliveries)
    (h : Holds db' id g n hash) :
    Holds db id g n hash ∨ ∃ d ∈ db.deliveries, p d = true ∧ (f d).id = id ∧ (f d).generation = g ∧ (f d).attempts = n ∧
      ∃ l, (f d).status = .inFlight l ∧ l.receiptHash = hash := by
  obtain ⟨d', hd', hrest⟩ := h
  rw [hd] at hd'
  rcases mem_updateWhere_cases hd' with ⟨d, hmem, hp, rfl⟩ | ⟨hmem, -⟩
  · exact .inr ⟨d, hmem, hp, hrest⟩
  · exact .inl ⟨d', hmem, hrest⟩

/-- An update after which the rows it touched are not in flight gives no lease to anyone. -/
theorem Holds.of_stopping_update (db : QueueDb) (hd : db'.deliveries = updateWhere p f db.deliveries)
    (hf : ∀ d ∈ db.deliveries, p d = true → (f d).isInFlight = false) (h : Holds db' id g n hash) :
    Holds db id g n hash := by
  rcases h.update_cases db hd with h | ⟨d, hmem, hp, -, -, -, l, hl, -⟩
  · exact h
  · have hin : (f d).isInFlight = true := isInFlight_iff.mpr ⟨l, hl⟩
    rw [hf d hmem hp] at hin
    cases hin

variable {D : Digests} {db : QueueDb} {gs : List Grant} {ops before : List QueueOp} {op : QueueOp} {r : String}

section

variable (hnd : db.Keyed) (h : Holds db' id g n hash)

include hnd h

/-- **Only a lease hands out a receipt.** A lease held after an effect was held before, or the effect
granted it. -/
theorem Effect.holds_cases (he : Effect D db gs db') :
    Holds db id g n hash ∨ ∃ r, (⟨id, g, n, r⟩ : Grant) ∈ gs ∧ queueReceiptHash D r = hash := by
  cases he with
  | reclaim sub hsub now =>
    exact .inl (h.of_stopping_update db rfl fun d _ _ => reclaimRow_isInFlight _ now d)
  | failureCallbacks =>
    obtain ⟨d, hd, hrest⟩ := h
    rw [insertFailureCallbacks_deliveries] at hd
    exact .inl ⟨d, hd, hrest⟩
  | expire | replay => exact .inl (h.of_stopping_update db rfl fun d _ _ => rfl)
  | lease terms receipt item hitem =>
    rcases h.update_cases db rfl with h | ⟨d, hd, hid, rfl, rfl, rfl, l, hl, rfl⟩
    · exact .inl h
    obtain rfl : d = item := eq_of_key_eq hnd hd hitem (of_decide_eq_true hid)
    refine .inr ⟨receipt, mem_singleton.mpr rfl, ?_⟩
    cases hl
    rfl
  | settle sub hsub settlement next availableAt now d =>
    exact .inl (h.of_stopping_update db rfl fun d _ _ => settleRow_isInFlight _ _ _ _ _ d)
  | extend =>
    rcases h.update_cases db rfl with h | ⟨d, hd, -, hrow⟩
    · exact .inl h
    unfold extendRow at hrow
    split at hrow
    next l₀ hl₀ =>
      obtain ⟨rfl, rfl, rfl, l, hl, rfl⟩ := hrow
      cases hl
      exact .inl ⟨d, hd, rfl, rfl, rfl, l₀, hl₀, rfl⟩
    · exact .inl ⟨d, hd, hrow⟩
  | delete =>
    obtain ⟨d, hd, hrest⟩ := h
    exact .inl ⟨d, mem_of_mem_filter hd, hrest⟩

theorem Effects.holds_cases (he : Effects D db gs db') :
    Holds db id g n hash ∨ ∃ r, (⟨id, g, n, r⟩ : Grant) ∈ gs ∧ queueReceiptHash D r = hash := by
  induction he with
  | refl => exact .inl h
  | step hstep _ ih =>
    rcases ih (hstep.ids_nodup hnd) h with h | ⟨r, hr, hhash⟩
    · rcases hstep.holds_cases hnd h with h | ⟨r, hr, hhash⟩
      · exact .inl h
      · exact .inr ⟨r, mem_append_left _ hr, hhash⟩
    · exact .inr ⟨r, mem_append_right _ hr, hhash⟩

theorem Operation.holds_cases (hop : Operation D db gs db') :
    Holds db id g n hash ∨ ∃ r, (⟨id, g, n, r⟩ : Grant) ∈ gs ∧ queueReceiptHash D r = hash := by
  cases hop with
  | control hw =>
    obtain ⟨d, hd, hrest⟩ := h
    exact .inl ⟨d, hw.deliveries ▸ hd, hrest⟩
  | effects he => exact he.holds_cases hnd h
  | enqueue rows hrows =>
    obtain ⟨d, hd, hid, hgen, hatt, l, hl, hhash⟩ := h
    rcases hrows.mem_cases hd with hd | hd
    · exact .inl ⟨d, hd, hid, hgen, hatt, l, hl, hhash⟩
    · rw [(hrows.new d hd).status] at hl
      cases hl

end

/-- **Every lease goes back to its pull.** The run splits at an operation that granted it, and in
every state since then the delivery has held it. -/
theorem holds_issued (h : Holds (reach D ops) id g n hash) :
    ∃ before op after r, ops = before ++ op :: after ∧ queueReceiptHash D r = hash ∧
      (⟨id, g, n, r⟩ : Grant) ∈ ((queue D).out (reach D before) op).grants ∧
      ∀ mid, mid <+: after → Holds (reach D (before ++ op :: mid)) id g n hash := by
  have hnil : ¬ Holds (reach D []) id g n hash := by
    rintro ⟨d, hd, -⟩
    cases hd
  obtain ⟨before, op, after, rfl, hnot, hsince⟩ :=
    Mealy.exists_since (P := fun ops => Holds (reach D ops) id g n hash) hnil h
  rcases (reach_concat_operation D before op).holds_cases (reach_ids_nodup D before) (hsince [] nil_prefix) with
    hbefore | ⟨r, hr, hhash⟩
  · exact absurd hbefore hnot
  · exact ⟨before, op, after, r, rfl, hhash, hr, hsince⟩

/-! ## The receipts of a run -/

/-- The receipts a pull brings along. -/
def QueueOp.receipts : QueueOp → List String
  | .pull request _ => request.receipts
  | _ => []

/-- The receipts generated for the pulls of a run are pairwise different, and so are their hashes. -/
structure DistinctReceipts (D : Digests) (ops : List QueueOp) : Prop where
  nodup : (ops.flatMap QueueOp.receipts).Nodup
  hash : ∀ r ∈ ops.flatMap QueueOp.receipts, ∀ r' ∈ ops.flatMap QueueOp.receipts,
    queueReceiptHash D r = queueReceiptHash D r' → r = r'

theorem DistinctReceipts.of_append {ops' : List QueueOp} (h : DistinctReceipts D (ops ++ ops')) :
    DistinctReceipts D ops := by
  have hsub : ∀ r ∈ ops.flatMap QueueOp.receipts, r ∈ (ops ++ ops').flatMap QueueOp.receipts := by
    intro r hr
    rw [flatMap_append]
    exact mem_append_left _ hr
  refine ⟨?_, fun r hr r' hr' => h.hash r (hsub r hr) r' (hsub r' hr')⟩
  have hnd := h.nodup
  rw [flatMap_append] at hnd
  exact (nodup_append.mp hnd).1

theorem leaseSelected_receipts {gaps : Nat → List DeadLetterOp} {locked : List String} {terms : LeaseTerms}
    {k : Nat} {selected : List (DeliveryRow × EventRow)} {receipts : List String} {leased : List QueueDelivery}
    (h : leaseSelected D gaps locked terms k selected receipts db = .ok (leased, db')) :
    leased.map QueueDelivery.receipt <+: receipts := by
  induction selected generalizing k receipts db leased with
  | nil =>
    cases h
    exact nil_prefix
  | cons x rest ih =>
    cases receipts with
    | nil => cases h
    | cons =>
      unfold leaseSelected at h
      split at h
      · cases h
      split at h
      · cases h
      next hrest =>
        cases h
        exact cons_prefix_cons.mpr ⟨rfl, ih hrest⟩

theorem grants_receipts (D : Digests) (db : QueueDb) (op : QueueOp) :
    (((queue D).out db op).grants.map Grant.receipt) <+: op.receipts := by
  rcases out_cases D db op with hnone | ⟨request, gaps, leased, rfl, hpull, hout⟩
  · rw [hnone]
    exact nil_prefix
  · rw [hout]
    show (leased.map QueueDelivery.grant).map Grant.receipt <+: request.receipts
    rw [map_map]
    generalize (queue D).next db (.pull request gaps) = db' at hpull
    cases hpull with
    | draining | full => exact nil_prefix
    | leasing _ _ _ _ _ _ _ _ _ _ _ _ _ _ hlease => exact leaseSelected_receipts hlease

theorem receipt_mem_of_grant {x : Grant} (h : x ∈ ((queue D).out db op).grants) : x.receipt ∈ op.receipts :=
  (grants_receipts D db op).subset (mem_map_of_mem h)

theorem mem_flatMap_of_split {after : List QueueOp} (hsplit : ops = before ++ op :: after) (hr : r ∈ op.receipts) :
    r ∈ ops.flatMap QueueOp.receipts := by
  rw [hsplit]
  exact mem_flatMap.mpr ⟨op, by simp, hr⟩

section Distinct

variable {D : Digests} {ops : List QueueOp}

/-- Two leases of a run under receipts with one hash are the same lease of the same pull. -/
theorem DistinctReceipts.same_issue (h : DistinctReceipts D ops) {before before' after after'}
    {op' : QueueOp} {x x' : Grant} (hsplit : ops = before ++ op :: after)
    (hsplit' : ops = before' ++ op' :: after')
    (hx : x ∈ ((queue D).out (reach D before) op).grants)
    (hx' : x' ∈ ((queue D).out (reach D before') op').grants)
    (hhash : queueReceiptHash D x.receipt = queueReceiptHash D x'.receipt) :
    before = before' ∧ x = x' := by
  have hr := receipt_mem_of_grant hx
  have hr' := receipt_mem_of_grant hx'
  have heq : x.receipt = x'.receipt :=
    h.hash _ (mem_flatMap_of_split hsplit hr) _ (mem_flatMap_of_split hsplit' hr') hhash
  have hnd := h.nodup
  rw [hsplit] at hnd
  rw [← heq] at hr'
  obtain ⟨rfl, rfl, -⟩ := split_unique_of_nodup_flatMap hnd (hsplit ▸ hsplit') hr hr'
  refine ⟨rfl, ?_⟩
  -- one pull: its grants carry different receipts
  have hop : op.receipts.Nodup := by
    rw [flatMap_append] at hnd
    exact (nodup_append.mp (nodup_append.mp hnd).2.1).1
  have hgrants : (((queue D).out (reach D before) op).grants.map Grant.receipt).Nodup :=
    hop.sublist (grants_receipts D (reach D before) op).sublist
  exact inj_on_of_nodup_map hgrants hx hx' heq

/-- **A hash is held once.** -/
theorem holds_unique (h : DistinctReceipts D ops) {id' : String} {g' n' : Nat}
    (hold : Holds (reach D ops) id g n hash) (hold' : Holds (reach D ops) id' g' n' hash) :
    id = id' ∧ g = g' ∧ n = n' := by
  obtain ⟨before, op, after, r, hsplit, hhash, hgrant, -⟩ := holds_issued hold
  obtain ⟨before', op', after', r', hsplit', hhash', hgrant', -⟩ := holds_issued hold'
  obtain ⟨-, hsame⟩ := h.same_issue hsplit hsplit' hgrant hgrant' (hhash.trans hhash'.symm)
  obtain ⟨hid, hg, hn, -⟩ := Grant.mk.inj hsame
  exact ⟨hid, hg, hn⟩

/-- **A lease given up stays given up.** If some delivery held a hash during `ops` and nobody holds
it after `ops`, nobody holds it after any continuation. -/
theorem not_holds_of_later {ops' : List QueueOp} (h : DistinctReceipts D (ops ++ ops'))
    {pre : List QueueOp} (hpre : pre <+: ops)
    (hheld : Holds (reach D pre) id g n hash)
    (hgone : ∀ id g n, ¬ Holds (reach D ops) id g n hash) :
    ∀ id g n, ¬ Holds (reach D (ops ++ ops')) id g n hash := by
  intro id' g' n' hlater
  obtain ⟨before, op, after, r, hsplit, hhash, hgrant, -⟩ := holds_issued hheld
  obtain ⟨before', op', after', r', hsplit', hhash', hgrant', hmid⟩ := holds_issued hlater
  obtain ⟨post, rfl⟩ := hpre
  have hsplit₁ : pre ++ post ++ ops' = before ++ op :: (after ++ post ++ ops') := by
    rw [hsplit]
    simp
  obtain ⟨rfl, -⟩ := h.same_issue hsplit₁ hsplit' hgrant hgrant' (hhash.trans hhash'.symm)
  -- the issuing pull lies in `pre`, so the lease was held all the way, also after `ops`
  have htail : op' :: after' = op :: (after ++ post ++ ops') := by
    have heq : before ++ op' :: after' = before ++ op :: (after ++ post ++ ops') :=
      hsplit'.symm.trans hsplit₁
    exact append_cancel_left heq
  obtain ⟨rfl, rfl⟩ := List.cons.inj htail
  refine hgone id' g' n' ?_
  have hreach := hmid (after ++ post) (prefix_append _ _)
  rw [hsplit, show before ++ op' :: after ++ post = before ++ op' :: (after ++ post) by simp]
  exact hreach

end Distinct

/-! ## Accepted receipts -/

/-- The receipt and the clock a settlement or an extension presents. -/
def QueueOp.presented : QueueOp → Option (String × Int)
  | .settle _ _ settlement now => some (settlement.receipt, now)
  | .extend _ _ extension now => some (extension.receipt, now)
  | _ => none

/-- The result is not `invalid_receipt`. -/
def QueueOut.accepted : QueueOut → Bool
  | .settled status => status ≠ .invalidReceipt
  | .extended status => status ≠ .invalidReceipt
  | _ => false

/-- The step is a settlement that accepts the receipt `r`. -/
def acceptedSettle (r : String) (t : Transition QueueDb QueueOp QueueOut) : Bool :=
  match t.input, t.output with
  | .settle _ _ settlement _, .settled status =>
    settlement.receipt = r && decide (status ≠ .invalidReceipt)
  | _, _ => false

variable {subscriptionId appId : String} {now : Int}

theorem receiptTarget_lease {receipt : String} {d : DeliveryRow}
    (h : receiptTarget D appId subscriptionId receipt now d = true) :
    ∃ l, d.status = .inFlight l ∧ l.receiptHash = queueReceiptHash D receipt ∧ now < l.expiresAt := by
  simp only [receiptTarget, Bool.and_eq_true] at h
  obtain ⟨-, hholds⟩ := h
  unfold DeliveryRow.holdsReceipt at hholds
  split at hholds
  next l hl =>
    simp only [Bool.and_eq_true, decide_eq_true_eq] at hholds
    exact ⟨l, hl, hholds.1, hholds.2⟩
  · cases hholds

variable {settlement : QueueSettlement}

/-- What an accepted settlement did: it found a row that holds the receipt and settled it. -/
theorem settle_accepted (h : ((queue D).out db (.settle appId subscriptionId settlement now)).accepted = true) :
    ∃ sub next availableAt d, db.findSubscription appId subscriptionId = some sub ∧
      settleTarget settlement now = some (next, availableAt) ∧
      db.deliveries.find? (receiptTarget D sub.appId sub.id settlement.receipt now) = some d ∧
      (queue D).next db (.settle appId subscriptionId settlement now)
        = settledDb D sub.toQueueSubscription settlement next availableAt now d db := by
  have hexec : (queue D).exec db (.settle appId subscriptionId settlement now)
      = commit .settled db (settleStep D appId subscriptionId settlement now db) := rfl
  rw [Mealy.out, hexec] at h
  rw [Mealy.next, hexec]
  cases hstep : settleStep D appId subscriptionId settlement now db with
  | error =>
    rw [hstep] at h
    cases h
  | ok result =>
    obtain ⟨status, db'⟩ := result
    rw [hstep] at h
    obtain ⟨sub, hsub, hcase⟩ := settleStep_cases hstep
    cases hcase with
    | invalid => cases h
    | settled next availableAt d hnext hfind =>
      exact ⟨sub, next, availableAt, d, hsub, hnext, hfind, rfl⟩

/-- A receipt is accepted only while a delivery holds it, before the lease expires. -/
theorem accepted_lease (hop : op.presented = some (r, now)) (h : ((queue D).out db op).accepted = true) :
    ∃ d ∈ db.deliveries, ∃ l, d.status = .inFlight l ∧ l.receiptHash = queueReceiptHash D r ∧ now < l.expiresAt := by
  cases op with
  | settle =>
    cases hop
    obtain ⟨sub, next, availableAt, d, -, -, hfind, -⟩ := settle_accepted h
    exact ⟨d, mem_of_find?_eq_some hfind, receiptTarget_lease (find?_some hfind)⟩
  | extend appId subscriptionId extension =>
    cases hop
    have hout : (queue D).out db (.extend appId subscriptionId extension now)
        = (commit .extended db (extendStep D appId subscriptionId extension now db)).1 := rfl
    rw [hout] at h
    unfold extendStep at h
    split at h
    · cases h
    -- one row was updated, so there is one that holds the receipt
    have hone : db.deliveries.countP (receiptTarget D appId subscriptionId extension.receipt now) = 1 := by
      by_contra hne
      have hinvalid : (extendQueueLease D appId subscriptionId extension now db).1 = .invalidReceipt := if_neg hne
      simp [commit, QueueOut.accepted, hinvalid] at h
    have hpos : 0 < db.deliveries.countP (receiptTarget D appId subscriptionId extension.receipt now) := by omega
    obtain ⟨d, hd, htarget⟩ := countP_pos_iff.mp hpos
    exact ⟨d, hd, receiptTarget_lease htarget⟩
  | _ => cases hop

theorem settle_gives_up (h : DistinctReceipts D before)
    (haccepted : ((queue D).out (reach D before) (.settle appId subscriptionId settlement now)).accepted = true)
    (id : String) (g n : Nat) :
    ¬ Holds (reach D (before ++ [.settle appId subscriptionId settlement now])) id g n
      (queueReceiptHash D settlement.receipt) := by
  rintro ⟨d', hd', hid, hgen, hatt, l, hl, hhash⟩
  obtain ⟨sub, next, availableAt, d, -, -, hfind, hnext⟩ := settle_accepted haccepted
  rw [reach_concat, hnext] at hd'
  rcases mem_updateWhere_cases hd' with ⟨e, -, -, rfl⟩ | ⟨he, hmiss⟩
  · have hrun := settleRow_isInFlight sub.maxAttempts next availableAt settlement.reason now e
    rw [isInFlight_iff.mpr ⟨l, hl⟩] at hrun
    cases hrun
  · -- the row was kept, so it held the receipt before, and so it is the row that was settled
    have hd : d ∈ (reach D before).deliveries := mem_of_find?_eq_some hfind
    obtain ⟨l', hl', hhash', -⟩ := receiptTarget_lease (find?_some hfind)
    have hsame := (holds_unique h ⟨d', he, rfl, rfl, rfl, l, hl, hhash⟩ ⟨d, hd, rfl, rfl, rfl, l', hl', hhash'⟩).1
    obtain rfl : d' = d := eq_of_key_eq (reach_ids_nodup D before) he hd hsame
    exact hmiss (find?_some hfind)

/-- Once a receipt was settled, neither a settlement nor an extension accepts it again. -/
theorem not_accepted_after_settle {mid : List QueueOp}
    (h : DistinctReceipts D (before ++ .settle appId subscriptionId settlement now :: mid))
    (haccepted : ((queue D).out (reach D before) (.settle appId subscriptionId settlement now)).accepted = true)
    (op : QueueOp) (now' : Int) (hop : op.presented = some (settlement.receipt, now')) :
    ((queue D).out (reach D (before ++ .settle appId subscriptionId settlement now :: mid)) op).accepted = false := by
  rw [← Bool.not_eq_true]
  intro hagain
  rw [show before ++ .settle appId subscriptionId settlement now :: mid
    = before ++ [.settle appId subscriptionId settlement now] ++ mid by simp] at h hagain
  obtain ⟨d, hd, l, hl, hhash, -⟩ := accepted_lease rfl haccepted
  obtain ⟨d', hd', l', hl', hhash', -⟩ := accepted_lease hop hagain
  exact not_holds_of_later h (prefix_append before _) ⟨d, hd, rfl, rfl, rfl, l, hl, hhash⟩
    (settle_gives_up h.of_append.of_append haccepted) d'.id d'.generation d'.attempts
    ⟨d', hd', rfl, rfl, rfl, l', hl', hhash'⟩

theorem acceptedSettle_cases {t : Transition QueueDb QueueOp QueueOut} (h : acceptedSettle r t = true) :
    ∃ appId subscriptionId settlement now,
      t.input = .settle appId subscriptionId settlement now ∧ settlement.receipt = r ∧
      t.output.accepted = true := by
  unfold acceptedSettle at h
  split at h
  next appId subscriptionId settlement now status hinput houtput =>
    simp only [Bool.and_eq_true, decide_eq_true_eq] at h
    refine ⟨appId, subscriptionId, settlement, now, hinput, h.1, ?_⟩
    rw [houtput]
    exact decide_eq_true h.2
  · cases h

/-- **A receipt settles once.** -/
theorem settle_accepted_once (h : DistinctReceipts D ops) (r : String) :
    ((queue D).transitions {} ops).countP (acceptedSettle r) ≤ 1 := by
  induction ops using reverseRecOn with
  | nil => exact Nat.zero_le 1
  | append_singleton ops op ih =>
    rw [Mealy.transitions_concat, countP_append, countP_singleton]
    split
    next hlast =>
      -- the last step accepts `r`: then no step before it did
      suffices hnone : ((queue D).transitions {} ops).countP (acceptedSettle r) = 0 by omega
      rw [countP_eq_zero]
      intro t ht hearlier
      obtain ⟨appId, subscriptionId, settlement, now, hinput, hr, hacc⟩ :=
        acceptedSettle_cases hearlier
      obtain ⟨appId', subscriptionId', settlement', now', rfl, hr', hacc'⟩ :=
        acceptedSettle_cases hlast
      obtain ⟨before, after, rfl, hpre, hout, -⟩ := (queue D).exists_split_of_mem_transitions ht
      rw [hout, hpre, hinput] at hacc
      rw [hinput] at h hacc'
      have hagain := not_accepted_after_settle h.of_append hacc
        (.settle appId' subscriptionId' settlement' now') now' (by rw [hr, ← hr']; rfl)
      have hacc'' : ((queue D).out (reach D (before ++ .settle appId subscriptionId settlement now :: after))
          (.settle appId' subscriptionId' settlement' now')).accepted = true := hacc'
      rw [hagain] at hacc''
      cases hacc''
    · exact ih h.of_append

/-! ## Fencing -/

/-- A pull of the run `ops` granted the delivery `d` its present lease under `receipt`, and in every
state since then the delivery has kept it: the same generation, the same attempt, the same receipt.
A settlement, a reclaim, another lease or a replay would each have ended it. -/
def IssuedAndHeld (D : Digests) (ops : List QueueOp) (d : DeliveryRow) (receipt : String) : Prop :=
  ∃ before pull after, ops = before ++ pull :: after ∧ (⟨d.id, d.generation, d.attempts, receipt⟩ : Grant)
      ∈ ((queue D).out (reach D before) pull).grants ∧
    ∀ mid, mid <+: after → Holds (reach D (before ++ pull :: mid)) d.id d.generation d.attempts
      (queueReceiptHash D receipt)

/-- **Receipt fencing.** In a run whose receipts are pairwise different and hash to different values,
with any clocks:

* a receipt is settled at most once;
* a settlement or an extension is accepted only before the expiry stored at that moment, for a
  delivery that has kept the lease of that receipt since the pull that issued it, and whose running
  attempt the history does not show as closed;
* the history of each stored delivery has one `leased` row for each lease granted, none twice, and
  closes no attempt twice. -/
theorem receipts_fenced (D : Digests) (ops : List QueueOp) (h : DistinctReceipts D ops) :
    (∀ r, ((queue D).transitions {} ops).countP (acceptedSettle r) ≤ 1) ∧
    (∀ before op after r now, ops = before ++ op :: after → op.presented = some (r, now) →
      ((queue D).out (reach D before) op).accepted = true →
      ∃ d ∈ (reach D before).deliveries, ∃ l, d.status = .inFlight l ∧
        l.receiptHash = queueReceiptHash D r ∧ now < l.expiresAt ∧
        (deliveryLog (reach D before).attempts d.id).countP (AttemptRow.closedAt d.generation d.attempts) = 0 ∧
        ∃ issued, queueReceiptHash D issued = queueReceiptHash D r ∧
          (r ∈ ops.flatMap QueueOp.receipts → issued = r) ∧ IssuedAndHeld D before d issued) ∧
    (∀ d ∈ (reach D ops).deliveries, ∀ g n,
      (deliveryLog (reach D ops).attempts d.id).countP (AttemptRow.leasedAt g n)
        = (grantLog D ops).countP (Grant.isAt d.id g n) ∧
      (deliveryLog (reach D ops).attempts d.id).countP (AttemptRow.leasedAt g n) ≤ 1 ∧
      (deliveryLog (reach D ops).attempts d.id).countP (AttemptRow.closedAt g n) ≤ 1) := by
  refine ⟨settle_accepted_once h, ?_, ?_⟩
  · intro before op after r now hsplit hop hacc
    obtain ⟨d, hd, l, hl, hhash, hexpiry⟩ := accepted_lease hop hacc
    obtain ⟨pre, pull, mid, issued, hbefore, hissued, hgrant, hheld⟩ :=
      holds_issued ⟨d, hd, rfl, rfl, rfl, l, hl, hhash⟩
    have hunclosed := ((reach_inv D before).log d hd).unclosed (isInFlight_iff.mpr ⟨l, hl⟩)
    refine ⟨d, hd, l, hl, hhash, hexpiry, hunclosed, issued, hissued, fun hr => ?_,
      pre, pull, mid, hbefore, hgrant, ?_⟩
    · refine h.hash issued ?_ r hr hissued
      rw [hsplit, hbefore, append_assoc]
      exact mem_flatMap_of_split rfl (receipt_mem_of_grant hgrant)
    · rwa [hissued]
  · intro d hd g n
    have hlog := (reach_inv D ops).log d hd
    refine ⟨?_, hlog.leasedAt_le_one g n, hlog.closedOnce g n⟩
    rw [← count_leasedRows, (grantLog_eq_history D ops).1 d hd, count_grantsOf]

/-- A delivery leased under `qrc_1` and acknowledged a second later. -/
def fencingRun : List QueueOp :=
  [.createSubscription sampleSubscription, .publish (samplePublication "evt_1" 0),
    samplePull second ["qrc_1"], sampleSettle "qrc_1" .ack (2 * second)]

theorem receipts_fenced_ack :
    DistinctReceipts sampleDigests fencingRun ∧
    ((queue sampleDigests).transitions {} fencingRun).countP (acceptedSettle "qrc_1") = 1 ∧
    ∀ r, ((queue sampleDigests).transitions {} fencingRun).countP (acceptedSettle r) ≤ 1 :=
  ⟨⟨by decide, by decide⟩, by decide, (receipts_fenced sampleDigests fencingRun ⟨by decide, by decide⟩).1⟩

end RelayHub.Queue
