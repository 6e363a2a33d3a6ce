import RelayHub.Queue.History

/-! # RelayHub queue — the leases of a run and the stored history

`grantLog D ops` lists, in order, the leases the pulls of a run have granted to the deliveries that
still exist after it. `grantLog_eq_history` says that, delivery by delivery, this is what the `leased`
rows of `queue_delivery_attempts` say. -/

namespace RelayHub.Queue

open List Table AttemptRow

/-- The leases granted so far, without those of deleted deliveries. -/
def liveGrants (steps : List (Transition QueueDb QueueOp QueueOut)) : List Grant :=
  steps.foldl (fun log t => (log ++ t.output.grants).filter fun x =>
      t.post.deliveries.any fun d => d.id = x.deliveryId) []

def grantLog (D : Digests) (ops : List QueueOp) : List Grant :=
  liveGrants ((queue D).transitions {} ops)

theorem grantLog_concat (D : Digests) (ops : List QueueOp) (op : QueueOp) :
    grantLog D (ops ++ [op]) = (grantLog D ops ++ ((queue D).out (reach D ops) op).grants).filter fun x =>
          (reach D (ops ++ [op])).deliveries.any fun d => d.id = x.deliveryId := by
  unfold grantLog liveGrants
  rw [Mealy.transitions_concat, foldl_append, reach_concat]
  rfl

/-- The leases of one delivery in a list of grants: generation and attempt number. -/
def grantsOf (log : List Grant) (id : String) : List (Nat × Nat) :=
  (log.filter fun x => x.deliveryId = id).map fun x => (x.generation, x.attempt)

/-- The leases of one delivery in the stored history. -/
def leasedRows (attempts : List AttemptRow) (id : String) : List (Nat × Nat) :=
  ((deliveryLog attempts id).filter fun a => a.outcome = .leased).map fun a => (a.generation, a.attempt)

variable (attempts : List AttemptRow)

theorem leasedRows_append_closes {new : List AttemptRow} (h : ∀ a ∈ new, a.outcome.closes = true) (id : String) :
    leasedRows (attempts ++ new) id = leasedRows attempts id := by
  have hnil : leasedRows new id = [] := by
    unfold leasedRows
    rw [map_eq_nil_iff, filter_eq_nil_iff]
    intro a ha hleased
    have hcloses := h a (mem_of_mem_filter ha)
    rw [of_decide_eq_true hleased] at hcloses
    cases hcloses
  unfold leasedRows at hnil ⊢
  rw [deliveryLog, filter_append, filter_append, map_append, ← deliveryLog, ← deliveryLog, hnil, append_nil]

theorem Inv.leasedRows_fresh {db : QueueDb} (h : Inv db) {id : String}
    (hfresh : ∀ e ∈ db.deliveries, e.id ≠ id) : leasedRows db.attempts id = [] := by
  unfold leasedRows deliveryLog
  rw [map_eq_nil_iff, filter_eq_nil_iff]
  intro a ha _
  obtain ⟨ha, hid⟩ := mem_filter.mp ha
  obtain ⟨e, he, heid⟩ := h.logged a ha
  exact hfresh e he (heid.trans (of_decide_eq_true hid))

/-- History and grants agree on every stored delivery. -/
def Agrees (db : QueueDb) (log : List Grant) : Prop :=
  ∀ d ∈ db.deliveries, leasedRows db.attempts d.id = grantsOf log d.id

/-- An effect adds to the history of a delivery the leases it grants to it. -/
theorem Effect.leasedRows_eq {D : Digests} {db db' : QueueDb} {gs : List Grant}
    (he : Effect D db gs db') (hinv : Inv db) {d' : DeliveryRow} (hd' : d' ∈ db'.deliveries) :
    leasedRows db'.attempts d'.id = leasedRows db.attempts d'.id ++ grantsOf gs d'.id := by
  cases he with
  | reclaim sub hsub now =>
    rw [hinv.reclaimExpired_attempts, leasedRows_append_closes]
    · simp [grantsOf]
    · intro a ha
      obtain ⟨e, -, rfl⟩ := mem_map.mp ha
      exact reclaimAttempt_closes now _
  | failureCallbacks =>
    simp [grantsOf]
  | expire => simp [grantsOf, expireRetained]
  | lease terms receipt item =>
    show leasedRows (db.attempts ++ [leasedAttempt terms item]) d'.id = _
    by_cases hitemId : item.id = d'.id
    · simp [leasedRows, deliveryLog, grantsOf, leasedAttempt, hitemId]
    · simp [leasedRows, deliveryLog, grantsOf, leasedAttempt, hitemId]
  | settle sub hsub settlement next availableAt now =>
    show leasedRows (db.attempts ++ [settleAttempt settlement next now _]) d'.id = _
    rw [leasedRows_append_closes]
    · simp [grantsOf]
    · intro a ha
      rw [mem_singleton.mp ha]
      exact settleAttempt_closes settlement next now _
  | extend => simp [grantsOf, extendQueueLease]
  | replay => simp [grantsOf, replayQueueDeadLetters]
  | delete appId subscriptionId ids =>
    obtain ⟨hmem, hstays⟩ := mem_filter.mp hd'
    unfold leasedRows
    rw [hinv.deliveryLog_delete appId subscriptionId ids hmem (by simpa using hstays)]
    simp [grantsOf]

theorem Effect.agrees {D : Digests} {db db' : QueueDb} {gs log : List Grant}
    (he : Effect D db gs db') (hinv : Inv db) (h : Agrees db log) : Agrees db' (log ++ gs) := by
  intro d' hd'
  obtain ⟨d, hd, hsame⟩ := he.mem_same hd'
  have hbefore := h d hd
  rw [← hsame.id] at hbefore
  rw [he.leasedRows_eq hinv hd', hbefore]
  simp [grantsOf]

/-- Dropping the grants of deliveries that are gone changes nothing for those that stay. -/
theorem Agrees.filter_live {db : QueueDb} {log : List Grant} (h : Agrees db log) :
    Agrees db (log.filter fun x => db.deliveries.any fun d => d.id = x.deliveryId) := by
  intro d hd
  rw [h d hd]
  unfold grantsOf
  rw [filter_filter]
  congr 1
  apply filter_congr
  intro x _
  by_cases hx : x.deliveryId = d.id
  · have hany : (db.deliveries.any fun e => decide (e.id = x.deliveryId)) = true :=
      any_eq_true.mpr ⟨d, hd, by simp [hx]⟩
    rw [hany, Bool.and_true]
  · simp [hx]

/-- **The stored history is the list of leases granted.** -/
theorem grantLog_eq_history (D : Digests) (ops : List QueueOp) : Agrees (reach D ops) (grantLog D ops) ∧
      ∀ x ∈ grantLog D ops, ∃ d ∈ (reach D ops).deliveries, d.id = x.deliveryId := by
  induction ops using reverseRecOn with
  | nil =>
    constructor
    · intro d hd
      cases hd
    · intro x hx
      cases hx
  | append_singleton ops op ih =>
    obtain ⟨hagree, hlive⟩ := ih
    rw [grantLog_concat]
    constructor
    · apply Agrees.filter_live
      have hop := reach_concat_operation D ops op
      generalize ((queue D).out (reach D ops) op).grants = gs at hop ⊢
      cases hop with
      | control hw =>
        intro d hd
        rw [append_nil, hw.attempts]
        exact hagree d (hw.deliveries ▸ hd)
      | effects h =>
        exact (h.induction (P := fun db log => Inv db ∧ Agrees db log) (grantLog D ops)
          (fun he hp => ⟨he.inv hp.1, he.agrees hp.1 hp.2⟩) ⟨reach_inv D ops, hagree⟩).2
      | enqueue rows hrows =>
        intro d hd
        rw [append_nil, hrows.attempts]
        rcases hrows.mem_cases hd with hd | hd
        · exact hagree d hd
        -- neither the history nor the log knows the id of a new delivery
        have hfresh := hrows.fresh (reach_ids_nodup D ops) d hd
        have hrowsNil := (reach_inv D ops).leasedRows_fresh hfresh
        have hlogNil : grantsOf (grantLog D ops) d.id = [] := by
          unfold grantsOf
          rw [map_eq_nil_iff, filter_eq_nil_iff]
          intro x hx hid
          obtain ⟨e, he, heid⟩ := hlive x hx
          exact hfresh e he (heid.trans (of_decide_eq_true hid))
        rw [hrowsNil, hlogNil]
    · intro x hx
      obtain ⟨-, hany⟩ := mem_filter.mp hx
      obtain ⟨d, hd, hid⟩ := any_eq_true.mp hany
      exact ⟨d, hd, of_decide_eq_true hid⟩

/-! ## Counting leases -/

/-- A lease of the given attempt. -/
def AttemptRow.leasedAt (generation n : Nat) (a : AttemptRow) : Bool :=
  a.generation = generation && a.attempt = n && a.outcome = .leased

/-- A grant of the given attempt of a delivery. -/
def Grant.isAt (id : String) (generation n : Nat) (x : Grant) : Bool :=
  x.deliveryId = id && x.generation = generation && x.attempt = n

theorem count_leasedRows (id : String) (g n : Nat) :
    (leasedRows attempts id).count (g, n) = (deliveryLog attempts id).countP (leasedAt g n) := by
  unfold leasedRows
  rw [count_eq_countP, countP_map, countP_filter]
  apply countP_congr
  intro a _
  simp [leasedAt]

theorem count_grantsOf (log : List Grant) (id : String) (g n : Nat) :
    (grantsOf log id).count (g, n) = log.countP (Grant.isAt id g n) := by
  unfold grantsOf
  rw [count_eq_countP, countP_map, countP_filter]
  apply countP_congr
  intro x _
  simp only [Grant.isAt, Function.comp, beq_iff_eq, Prod.mk.injEq, Bool.and_eq_true, decide_eq_true_eq]
  tauto

theorem LogOk.leasedAt_le_one {log : List AttemptRow} {generation attempts : Nat} {running : Bool}
    (h : LogOk log generation attempts running) (g n : Nat) :
    log.countP (leasedAt g n) ≤ 1 := by
  obtain ⟨m, hm⟩ := h.numbered g
  have hcount : (leaseNumbers log g).count n = log.countP (leasedAt g n) := by
    unfold leaseNumbers
    rw [count_eq_countP, countP_map, countP_filter]
    apply countP_congr
    intro a _
    simp only [leasedAt, leasedIn, Function.comp, beq_iff_eq, Bool.and_eq_true, decide_eq_true_eq]
    tauto
  rw [← hcount, hm]
  exact nodup_iff_count_le_one.mp nodup_range' n

end RelayHub.Queue
