import RelayHub.Queue.Effects

/-! # RelayHub queue — the history invariant

A delivery counts its leases in `attempts`, restarts the count with each generation, and every lease
and every closing leaves a row in `queue_delivery_attempts`. `LogOk` says, for one delivery, that its
log agrees with its counters: the `leased` rows of each generation are numbered `1, 2, 3, …` in order,
up to `attempts` in the current one; no attempt is closed twice, and an attempt in flight is not
closed.

`Inv` puts this together for the whole store with the unique and foreign keys; `reach_inv` is its
proof for every reachable state. Because of it the unique constraint of the history never stops a
pull (`lease_not_taken`). -/

namespace RelayHub.Queue

open List Table AttemptRow Bool

/-! ## The log of one delivery -/

/-- A lease of the given generation. -/
def AttemptRow.leasedIn (generation : Nat) (a : AttemptRow) : Bool :=
  a.generation = generation && a.outcome = .leased

/-- A closing of the given attempt. -/
def AttemptRow.closedAt (generation n : Nat) (a : AttemptRow) : Bool :=
  a.generation = generation && a.attempt = n && a.outcome.closes

/-- The attempt numbers of the leases of a generation, in order. -/
def leaseNumbers (log : List AttemptRow) (generation : Nat) : List Nat :=
  (log.filter (AttemptRow.leasedIn generation)).map AttemptRow.attempt

theorem leaseNumbers_append (log log' : List AttemptRow) (generation : Nat) :
    leaseNumbers (log ++ log') generation = leaseNumbers log generation ++ leaseNumbers log' generation := by
  simp [leaseNumbers]

/-- The log agrees with a delivery's generation, its attempts and whether a lease is running. -/
structure LogOk (log : List AttemptRow) (generation attempts : Nat) (running : Bool) : Prop where
  leased : leaseNumbers log generation = List.range' 1 attempts
  numbered : ∀ g, ∃ m, leaseNumbers log g = List.range' 1 m
  closedOnce : ∀ g n, log.countP (AttemptRow.closedAt g n) ≤ 1
  past : ∀ a ∈ log, a.generation < generation ∨ a.generation = generation ∧ a.attempt ≤ attempts
  unclosed : running = true → log.countP (AttemptRow.closedAt generation attempts) = 0

namespace LogOk

variable {log : List AttemptRow} {generation attempts : Nat} {running : Bool} {a : AttemptRow}

theorem nil (generation : Nat) : LogOk [] generation 0 false :=
  ⟨rfl, fun _ => ⟨0, rfl⟩, by simp, by simp, by simp⟩

theorem leaseNumbers_later (h : LogOk log generation attempts running) {g : Nat}
    (hg : generation < g) : leaseNumbers log g = [] := by
  unfold leaseNumbers
  rw [map_eq_nil_iff, filter_eq_nil_iff]
  intro a ha hleased
  simp only [leasedIn, and_eq_true, decide_eq_true_eq] at hleased
  rcases h.past a ha with hpast | ⟨hgen, -⟩ <;> omega

theorem lease (h : LogOk log generation attempts false) (hgen : a.generation = generation)
    (hatt : a.attempt = attempts + 1) (hout : a.outcome = .leased) :
    LogOk (log ++ [a]) generation (attempts + 1) true := by
  have hclosedAt : ∀ g n, closedAt g n a = false := by
    intro g n
    simp [closedAt, hout, AttemptOutcome.closes]
  have hnumbers : ∀ g, leaseNumbers [a] g = if g = generation then [attempts + 1] else [] := by
    intro g
    by_cases hg : g = generation
    · simp [leaseNumbers, leasedIn, hgen, hatt, hout, hg]
    · simp [leaseNumbers, leasedIn, hgen, hg, Ne.symm hg]
  have hnext : leaseNumbers (log ++ [a]) generation = .range' 1 (attempts + 1) := by
    rw [leaseNumbers_append, hnumbers, if_pos rfl, h.leased, range'_concat]
    rw [Nat.one_mul, Nat.add_comm 1 attempts]
  refine ⟨hnext, fun g => ?_, fun g n => ?_, forall_mem_concat (fun b hb => ?_) (by omega), fun _ => ?_⟩
  · by_cases hg : g = generation
    · exact ⟨attempts + 1, hg ▸ hnext⟩
    · obtain ⟨m, hm⟩ := h.numbered g
      refine ⟨m, ?_⟩
      rw [leaseNumbers_append, hnumbers, if_neg hg, append_nil, hm]
  · rw [countP_append, countP_singleton, hclosedAt]
    exact h.closedOnce g n
  · rcases h.past b hb with hb | ⟨hb, hle⟩ <;> omega
  · rw [countP_append, countP_singleton, hclosedAt]
    have hclosed : log.countP (closedAt generation (attempts + 1)) = 0 := by
      rw [countP_eq_zero]
      intro b hb hcb
      simp only [closedAt, and_eq_true, decide_eq_true_eq] at hcb
      rcases h.past b hb with hpast | ⟨-, hle⟩ <;> omega
    rw [hclosed]
    rfl

theorem close (h : LogOk log generation attempts true) (hgen : a.generation = generation)
    (hatt : a.attempt = attempts) (hout : a.outcome.closes = true) :
    LogOk (log ++ [a]) generation attempts false := by
  have hnumbers : ∀ g, leaseNumbers (log ++ [a]) g = leaseNumbers log g := by
    intro g
    have hnot : leasedIn g a = false := by
      cases hcase : a.outcome <;> simp [leasedIn, hcase]
      simp [hcase, AttemptOutcome.closes] at hout
    rw [leaseNumbers_append]
    simp [leaseNumbers, hnot]
  have hclosedAt : ∀ g n, closedAt g n a = (generation = g && attempts = n) := by
    intro g n
    simp [closedAt, hgen, hatt, hout]
  refine ⟨(hnumbers generation).trans h.leased, fun g => ?_, fun g n => ?_, forall_mem_concat h.past (by omega),
    by simp⟩
  · obtain ⟨m, hm⟩ := h.numbered g
    exact ⟨m, (hnumbers g).trans hm⟩
  · rw [countP_append, countP_singleton, hclosedAt]
    by_cases hgn : generation = g ∧ attempts = n
    · obtain ⟨rfl, rfl⟩ := hgn
      simp [h.unclosed rfl]
    · have hfalse : (decide (generation = g) && decide (attempts = n)) = false := by
        simpa using hgn
      rw [hfalse]
      exact h.closedOnce g n

theorem stop (h : LogOk log generation attempts running) : LogOk log generation attempts false :=
  ⟨h.leased, h.numbered, h.closedOnce, h.past, by simp⟩

theorem replay (h : LogOk log generation attempts running) : LogOk log (generation + 1) 0 false := by
  refine ⟨h.leaseNumbers_later (Nat.lt_succ_self _), h.numbered, h.closedOnce, fun b hb => ?_, by simp⟩
  rcases h.past b hb with hb | ⟨hb, -⟩ <;> omega

end LogOk

/-! ## The rows of an update -/

variable (sub : QueueSubscription)

@[simp] theorem reclaimRow_generation (now : Int) (d : DeliveryRow) :
    (reclaimRow sub now d).generation = d.generation := by
  unfold reclaimRow
  split
  · split <;> rfl
  · rfl

@[simp] theorem reclaimRow_attempts (now : Int) (d : DeliveryRow) : (reclaimRow sub now d).attempts = d.attempts := by
  unfold reclaimRow
  split
  · split <;> rfl
  · rfl

/-- After the reclaim statement nothing it touched is in flight. -/
@[simp] theorem reclaimRow_isInFlight (now : Int) (d : DeliveryRow) : (reclaimRow sub now d).isInFlight = false := by
  unfold reclaimRow
  split
  · split <;> rfl
  next hstatus =>
  rw [← not_eq_true, isInFlight_iff]
  rintro ⟨l, hl⟩
  exact hstatus l hl

@[simp] theorem settleRow_isInFlight (maxAttempts : Int) (next : NextStatus) (availableAt : Int)
    (reason : String) (now : Int) (d : DeliveryRow) :
    (settleRow maxAttempts next availableAt reason now d).isInFlight = false := by
  rw [← not_eq_true, isInFlight_iff]
  rintro ⟨l, hl⟩
  unfold settleRow at hl
  dsimp only at hl
  split at hl
  · cases hl
  · cases next <;> cases hl

theorem extendRow_keeps (extension : Int) (now : Int) (d : DeliveryRow) :
    (extendRow extension now d).generation = d.generation ∧
    (extendRow extension now d).attempts = d.attempts ∧
    (extendRow extension now d).isInFlight = d.isInFlight := by
  unfold extendRow
  split
  next l hl =>
    refine ⟨rfl, rfl, ?_⟩
    have hin : d.isInFlight = true := isInFlight_iff.mpr ⟨l, hl⟩
    rw [hin]
    rfl
  · exact ⟨rfl, rfl, rfl⟩

variable {now : Int} {d : DeliveryRow}

theorem leaseExpired_inFlight (h : d.leaseExpired now = true) : d.isInFlight = true := by
  unfold DeliveryRow.leaseExpired at h
  split at h
  next l hl => exact isInFlight_iff.mpr ⟨l, hl⟩
  · cases h

variable {subscriptionId : String}

theorem reclaimable_inFlight (h : reclaimable subscriptionId now d = true) : d.isInFlight = true := by
  simp only [reclaimable, and_eq_true] at h
  exact leaseExpired_inFlight h.2

theorem holdsReceipt_inFlight {hash : String} (h : d.holdsReceipt hash now = true) : d.isInFlight = true := by
  unfold DeliveryRow.holdsReceipt at h
  split at h
  next l hl => exact isInFlight_iff.mpr ⟨l, hl⟩
  · cases h

variable {D : Digests}

theorem receiptTarget_inFlight {appId receipt : String}
    (h : receiptTarget D appId subscriptionId receipt now d = true) : d.isInFlight = true := by
  simp only [receiptTarget, and_eq_true] at h
  exact holdsReceipt_inFlight h.2

variable {db : QueueDb}

theorem deadLetterTarget_status {appId : String} {ids : List String}
    (h : deadLetterTarget db appId subscriptionId ids d = true) : d.status = .deadLetter := by
  simp only [deadLetterTarget, and_eq_true] at h
  exact isDeadLetter_iff.mp h.2

theorem settleAttempt_closes (settlement : QueueSettlement) (next : NextStatus) (now : Int)
    (d : DeliveryRow) : (settleAttempt settlement next now d).outcome.closes = true := by
  unfold settleAttempt
  dsimp only
  split
  · rfl
  · cases next <;> rfl

variable (sub : QueueSubscription) (now : Int)

theorem reclaimAttempt_closes (d : DeliveryRow) : (reclaimAttempt now d).outcome.closes = true := by
  unfold reclaimAttempt
  split <;> rfl

/-! ## The invariant -/

/-- The history rows of a delivery. -/
def deliveryLog (attempts : List AttemptRow) (id : String) : List AttemptRow :=
  attempts.filter fun a => a.deliveryId = id

theorem deliveryLog_append (attempts new : List AttemptRow) (id : String) :
    deliveryLog (attempts ++ new) id = deliveryLog attempts id ++ deliveryLog new id :=
  filter_append ..

/-- The keys, the foreign keys and the history of the queue. -/
structure Inv (db : QueueDb) : Prop where
  deliveryIds : (db.deliveries.map (·.id)).Nodup
  subscriptionIds : (db.subscriptions.map (·.id)).Nodup
  event : ∀ d ∈ db.deliveries, ∃ e ∈ db.events, e.id = d.eventId
  log : ∀ d ∈ db.deliveries, LogOk (deliveryLog db.attempts d.id) d.generation d.attempts d.isInFlight
  logged : ∀ a ∈ db.attempts, ∃ d ∈ db.deliveries, d.id = a.deliveryId

namespace Inv

variable {D : Digests} {db db' : QueueDb} {gs : List Grant} {d : DeliveryRow}

theorem empty : Inv {} :=
  ⟨nodup_nil, nodup_nil, by simp, by simp, by simp⟩

section

variable (h : Inv db)

include h

/-- An update of deliveries keeps the invariant when it keeps identities, the new history agrees with
the new rows, and the other rows have the history they had. -/
theorem of_update {p : DeliveryRow → Bool} {f : DeliveryRow → DeliveryRow}
    (hd : db'.deliveries = updateWhere p f db.deliveries) (hs : db'.subscriptions = db.subscriptions)
    (he : db'.events = db.events) (hsame : ∀ d, SameDelivery d (f d))
    (hlog : ∀ d ∈ db.deliveries, p d = true →
      LogOk (deliveryLog db'.attempts d.id) (f d).generation (f d).attempts (f d).isInFlight)
    (hother : ∀ d ∈ db.deliveries, p d = false → deliveryLog db'.attempts d.id = deliveryLog db.attempts d.id)
    (hlogged : ∀ a ∈ db'.attempts, ∃ d ∈ db.deliveries, d.id = a.deliveryId) : Inv db' := by
  have hrow : ∀ d' ∈ db'.deliveries, ∃ d ∈ db.deliveries, d' = if p d then f d else d := by
    intro d' hd'
    rw [hd] at hd'
    obtain ⟨d, hmem, rfl⟩ := mem_updateWhere.mp hd'
    exact ⟨d, hmem, rfl⟩
  refine ⟨?_, hs ▸ h.subscriptionIds, ?_, ?_, ?_⟩
  · rw [hd, ids_updateWhere hsame]
    exact h.deliveryIds
  · intro d' hd'
    obtain ⟨d, hmem, rfl⟩ := hrow d' hd'
    rw [((hsame d).ite).eventId, he]
    exact h.event d hmem
  · intro d' hd'
    obtain ⟨d, hmem, rfl⟩ := hrow d' hd'
    rw [((hsame d).ite).id]
    cases hp : p d with
    | true => exact hlog d hmem hp
    | false =>
      rw [hother d hmem hp]
      exact h.log d hmem
  · intro a ha
    obtain ⟨d, hmem, hid⟩ := hlogged a ha
    have hin : a.deliveryId ∈ db'.deliveries.map (·.id) := by
      rw [hd, ids_updateWhere hsame, ← hid]
      exact mem_map_of_mem hmem
    obtain ⟨d', hmem', hid'⟩ := mem_map.mp hin
    exact ⟨d', hmem', hid'⟩

/-- A row that closes the running attempt of a delivery meets no stored key. -/
theorem closing_not_taken (hd : d ∈ db.deliveries) (hrun : d.isInFlight = true) {a b : AttemptRow}
    (ha : a ∈ db.attempts) (hid : b.deliveryId = d.id) (hgen : b.generation = d.generation)
    (hatt : b.attempt = d.attempts) (hcloses : b.outcome.closes = true) : a.key ≠ b.key := by
  intro hkey
  simp only [key, Prod.mk.injEq] at hkey
  obtain ⟨hkid, hkgen, hkatt, hkout⟩ := hkey
  have hzero := (h.log d hd).unclosed hrun
  rw [countP_eq_zero] at hzero
  refine hzero a (mem_filter.mpr ⟨ha, by simp [hkid, hid]⟩) ?_
  simp [closedAt, hkgen, hgen, hkatt, hatt, hkout, hcloses]

/-- The reclaim statement inserts a history row for every delivery it touches: its
`ON CONFLICT DO NOTHING` never applies. -/
theorem reclaimExpired_attempts :
    (reclaimExpired sub now db).attempts = db.attempts ++ (db.deliveries.filter (reclaimable sub.id now)).map
        fun d => reclaimAttempt now (reclaimRow sub now d) := by
  apply insertAllIgnore_of_fresh
  · rw [map_map]
    have hids : ((db.deliveries.filter (reclaimable sub.id now)).map (·.id)).Nodup :=
      h.deliveryIds.sublist (filter_sublist.map _)
    refine .of_map Prod.fst ?_
    rw [map_map]
    have hfun : (Prod.fst ∘ key ∘ fun d => reclaimAttempt now (reclaimRow sub now d)) = DeliveryRow.id := by
      funext d
      exact (reclaimRow_same sub now d).id
    rw [hfun]
    exact hids
  · intro b hb a ha
    obtain ⟨d, hd, rfl⟩ := mem_map.mp hb
    obtain ⟨hmem, hhit⟩ := mem_filter.mp hd
    exact h.closing_not_taken hmem (reclaimable_inFlight hhit) ha (reclaimRow_same sub now d).id
      (reclaimRow_generation sub now d) (reclaimRow_attempts sub now d) (reclaimAttempt_closes now _)

/-- The rows of the reclaim statement that belong to one delivery. -/
theorem deliveryLog_reclaimed (hd : d ∈ db.deliveries) :
    deliveryLog ((db.deliveries.filter (reclaimable sub.id now)).map
        fun d => reclaimAttempt now (reclaimRow sub now d)) d.id
      = if reclaimable sub.id now d then [reclaimAttempt now (reclaimRow sub now d)] else [] := by
  unfold deliveryLog
  rw [filter_map, filter_filter]
  have hfun : (fun e => ((fun a => decide (a.deliveryId = d.id)) ∘
      fun d => reclaimAttempt now (reclaimRow sub now d)) e && reclaimable sub.id now e)
      = fun e => reclaimable sub.id now e && decide (e.id = d.id) := by
    funext e
    have hid : (reclaimAttempt now (reclaimRow sub now e)).deliveryId = e.id :=
      (reclaimRow_same sub now e).id
    simp [Function.comp, hid, Bool.and_comm]
  rw [hfun, ← filter_filter, filter_key_eq_singleton h.deliveryIds hd]
  split
  next hhit => simp [hhit]
  next hhit => simp [hhit]

theorem reclaim : Inv (reclaimExpired sub now db) := by
  refine h.of_update rfl rfl rfl (reclaimRow_same sub now) ?_ ?_ ?_
  · intro d hd hhit
    rw [h.reclaimExpired_attempts, deliveryLog_append, h.deliveryLog_reclaimed sub now hd, if_pos hhit]
    have hlog := h.log d hd
    rw [reclaimable_inFlight hhit] at hlog
    simp only [reclaimRow_generation, reclaimRow_attempts, reclaimRow_isInFlight]
    exact hlog.close (reclaimRow_generation sub now d) (reclaimRow_attempts sub now d) (reclaimAttempt_closes now _)
  · intro d hd hmiss
    rw [h.reclaimExpired_attempts, deliveryLog_append, h.deliveryLog_reclaimed sub now hd, hmiss]
    exact append_nil _
  · intro a ha
    rw [h.reclaimExpired_attempts] at ha
    rcases mem_append.mp ha with ha | ha
    · exact h.logged a ha
    · obtain ⟨d, hd, rfl⟩ := mem_map.mp ha
      exact ⟨d, mem_of_mem_filter hd, ((reclaimRow_same sub now d).id).symm⟩

theorem expire : Inv (expireRetained sub now db) := by
  exact h.of_update rfl rfl rfl
    (expireRow_same now) (fun d hd _ => (h.log d hd).stop) (fun _ _ _ => rfl) h.logged

end

theorem deliveryLog_singleton (a : AttemptRow) (id : String) :
    deliveryLog [a] id = if a.deliveryId = id then [a] else [] := by
  unfold deliveryLog
  by_cases hid : a.deliveryId = id <;> simp [hid]

variable (h : Inv db)

include h

theorem lease (terms : LeaseTerms) (receipt : String) {item : DeliveryRow} (hitem : item ∈ db.deliveries)
    (havailable : item.status = .available) : Inv (leasedDb D terms receipt item db) := by
  refine h.of_update (p := fun d => d.id = item.id) (f := leaseRow terms (queueReceiptHash D receipt) item) rfl rfl rfl
    (leaseRow_same terms _ item) ?_ ?_ ?_
  · intro d hd hid -- the primary key makes `d` the selected row
    obtain rfl : d = item := eq_of_key_eq h.deliveryIds hd hitem (of_decide_eq_true hid)
    show LogOk (deliveryLog (db.attempts ++ [leasedAttempt terms d]) d.id) _ _ _
    rw [deliveryLog_append, deliveryLog_singleton, if_pos (show (leasedAttempt terms d).deliveryId = d.id from rfl)]
    have hlog := h.log d hd
    rw [isInFlight_of_available havailable] at hlog
    exact hlog.lease rfl rfl rfl
  · intro d hd hid
    have hne : (leasedAttempt terms item).deliveryId ≠ d.id := .symm (of_decide_eq_false hid)
    show deliveryLog (db.attempts ++ [leasedAttempt terms item]) d.id = _
    rw [deliveryLog_append, deliveryLog_singleton, if_neg hne, append_nil]
  · exact forall_mem_concat h.logged ⟨item, hitem, rfl⟩

theorem settle (sub : QueueSubscription) (settlement : QueueSettlement) (next : NextStatus) (availableAt now : Int)
    (hfind : db.deliveries.find? (receiptTarget D sub.appId sub.id settlement.receipt now) = some d) :
    Inv (settledDb D sub settlement next availableAt now d db) := by
  have hd : d ∈ db.deliveries := mem_of_find?_eq_some hfind
  have htarget := find?_some hfind
  set target := receiptTarget D sub.appId sub.id settlement.receipt now
  set settled := settleRow sub.maxAttempts next availableAt settlement.reason now
  refine h.of_update rfl rfl rfl (settleRow_same _ _ _ _ _) ?_ ?_ ?_
  · intro e he _
    show LogOk (deliveryLog (db.attempts ++ [settleAttempt settlement next now (settled d)]) e.id) _ _ _
    rw [deliveryLog_append, deliveryLog_singleton, settleRow_isInFlight]
    have hlog := h.log e he
    by_cases hid : e.id = d.id
    · obtain rfl : e = d := eq_of_key_eq h.deliveryIds he hd hid
      rw [receiptTarget_inFlight htarget] at hlog
      rw [if_pos (show (settleAttempt settlement next now (settled e)).deliveryId = e.id from rfl)]
      exact hlog.close rfl rfl (settleAttempt_closes settlement next now _)
    · -- a second row with the same receipt would end without a history row
      rw [if_neg (show (settleAttempt settlement next now (settled d)).deliveryId ≠ e.id from
        .symm hid), append_nil]
      exact hlog.stop
  · intro e he hmiss
    have hne : (settleAttempt settlement next now (settled d)).deliveryId ≠ e.id := by
      intro hid
      obtain rfl : d = e := eq_of_key_eq h.deliveryIds hd he hid
      exact false_ne_true (hmiss.symm.trans htarget)
    show deliveryLog (db.attempts ++ [settleAttempt settlement next now (settled d)]) e.id = _
    rw [deliveryLog_append, deliveryLog_singleton, if_neg hne, append_nil]
  · exact forall_mem_concat h.logged ⟨d, hd, rfl⟩

variable (appId subscriptionId : String)

theorem extend (extension : QueueLeaseExtension) (now : Int) :
    Inv (extendQueueLease D appId subscriptionId extension now db).2 := by
  refine h.of_update rfl rfl rfl (extendRow_same _ _) ?_ (fun _ _ _ => rfl) h.logged
  intro d hd _
  obtain ⟨hgen, hatt, hrun⟩ := extendRow_keeps extension.extension now d
  rw [hgen, hatt, hrun]
  exact h.log d hd

theorem replay (appId subscriptionId : String) (ids : List String) (now : Int) :
    Inv (replayQueueDeadLetters db appId subscriptionId ids now).2 := by
  exact h.of_update rfl rfl rfl
    (replayRow_same now) (fun d hd _ => (h.log d hd).replay) (fun _ _ _ => rfl) h.logged

/-- The cascade of a delete takes no history row of a delivery that stays. -/
theorem deliveryLog_delete (ids : List String) (hd : d ∈ db.deliveries)
    (hstays : deadLetterTarget db appId subscriptionId ids d = false) :
    deliveryLog (deleteQueueDeadLetters db appId subscriptionId ids).2.attempts d.id
      = deliveryLog db.attempts d.id := by
  unfold deliveryLog deleteQueueDeadLetters
  rw [filter_filter]
  apply filter_congr
  intro a _
  by_cases hid : a.deliveryId = d.id
  · have hnone : (db.deliveries.any fun e =>
        deadLetterTarget db appId subscriptionId ids e && decide (e.id = a.deliveryId)) = false := by
      rw [any_eq_false]
      intro e he hboth
      simp only [and_eq_true, decide_eq_true_eq] at hboth
      obtain rfl : e = d := eq_of_key_eq h.deliveryIds he hd (hboth.2.trans hid)
      rw [hstays] at hboth
      exact false_ne_true hboth.1
    rw [hnone]
    simp [hid]
  · simp [hid]

theorem delete (ids : List String) : Inv (deleteQueueDeadLetters db appId subscriptionId ids).2 := by
  have hkept : ∀ d ∈ (deleteQueueDeadLetters db appId subscriptionId ids).2.deliveries,
      d ∈ db.deliveries ∧ deadLetterTarget db appId subscriptionId ids d = false := by
    intro d hd
    obtain ⟨hmem, hnot⟩ := mem_filter.mp hd
    exact ⟨hmem, by simpa using hnot⟩
  refine ⟨h.deliveryIds.sublist (filter_sublist.map _), h.subscriptionIds,
    fun d hd => h.event d (hkept d hd).1, fun d hd => ?_, fun a ha => ?_⟩
  · obtain ⟨hmem, hnot⟩ := hkept d hd
    rw [h.deliveryLog_delete appId subscriptionId ids hmem hnot]
    exact h.log d hmem
  · obtain ⟨hmem, hnot⟩ := mem_filter.mp ha
    obtain ⟨d, hd, hid⟩ := h.logged a hmem
    refine ⟨d, mem_filter.mpr ⟨hd, ?_⟩, hid⟩
    by_contra hhit
    rw [not_eq_true, not_eq_false'] at hhit
    rw [not_eq_true', any_eq_false] at hnot
    exact hnot d hd (by simp [hhit, hid])

theorem control (hw : SameWork db db') : Inv db' := by
  refine ⟨hw.deliveries ▸ h.deliveryIds, hw.subscriptionIds h.subscriptionIds, ?_, ?_, ?_⟩
  · rw [hw.deliveries, hw.events]
    exact h.event
  · rw [hw.deliveries, hw.attempts]
    exact h.log
  · rw [hw.deliveries, hw.attempts]
    exact h.logged

theorem enqueue {rows : List DeliveryRow} (hrows : Enqueues rows db db') : Inv db' := by
  refine ⟨hrows.ids h.deliveryIds, hrows.subscriptions ▸ h.subscriptionIds, ?_, ?_, ?_⟩
  · intro d hd
    rcases hrows.mem_cases hd with hd | hd
    · obtain ⟨e, he, hid⟩ := h.event d hd
      exact ⟨e, hrows.events he, hid⟩
    · exact hrows.event d hd
  · intro d hd
    rw [hrows.attempts]
    rcases hrows.mem_cases hd with hd | hd
    · exact h.log d hd
    -- a new id has no history: every history row has its delivery
    have hnone : deliveryLog db.attempts d.id = [] := by
      unfold deliveryLog
      rw [filter_eq_nil_iff]
      intro a ha hid
      obtain ⟨e, he, heid⟩ := h.logged a ha
      exact hrows.fresh h.deliveryIds d hd e he (heid.trans (of_decide_eq_true hid))
    have hnew := hrows.new d hd
    rw [hnone, hnew.attempts, isInFlight_of_available hnew.status]
    exact .nil _
  · intro a ha
    rw [hrows.attempts] at ha
    obtain ⟨d, hd, hid⟩ := h.logged a ha
    exact ⟨d, hrows.deliveries ▸ mem_append_left _ hd, hid⟩

end Inv

variable {db' : QueueDb} {gs : List Grant}

theorem Effect.subscriptions (he : Effect D db gs db') : db'.subscriptions = db.subscriptions := by
  cases he with
  | failureCallbacks sub now => exact insertFailureCallbacks_subscriptions _ now db
  | _ => rfl

theorem Effect.inv (he : Effect D db gs db') (h : Inv db) : Inv db' := by
  cases he with
  | reclaim sub hsub now => exact h.reclaim sub.toQueueSubscription now
  | failureCallbacks =>
    unfold insertFailureCallbacks
    split
    · exact h
    · exact { h with }
  | expire sub now => exact h.expire sub.toQueueSubscription now
  | lease terms receipt item hitem havailable => exact h.lease terms receipt hitem havailable
  | settle sub hsub settlement next availableAt now d hfind =>
    exact h.settle sub.toQueueSubscription settlement next availableAt now hfind
  | extend appId subscriptionId extension now => exact h.extend appId subscriptionId extension now
  | replay appId subscriptionId ids now => exact h.replay appId subscriptionId ids now
  | delete appId subscriptionId ids => exact h.delete appId subscriptionId ids

theorem Effects.inv (he : Effects D db gs db') (h : Inv db) : Inv db' :=
  he.induction (P := fun db _ => Inv db) [] (fun hstep hp => hstep.inv hp) h

/-- **Every operation keeps the invariant.** -/
theorem Inv.next (h : Inv db) (op : QueueOp) : Inv ((queue D).next db op) := by
  have hop := exec_operation (D := D) h.deliveryIds op
  generalize ((queue D).out db op).grants = gs at hop
  cases hop with
  | control hw => exact h.control hw
  | enqueue rows hrows => exact h.enqueue hrows
  | effects he => exact he.inv h

/-- **Every reachable state satisfies the invariant.** -/
theorem reach_inv (D : Digests) (ops : List QueueOp) : Inv (reach D ops) :=
  (queue D).run_induction .empty (fun _ op h => h.next op) ops

end RelayHub.Queue
