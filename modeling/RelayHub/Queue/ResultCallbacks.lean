import RelayHub.Queue.Fencing
import RelayHub.Queue.InPull

/-! # RelayHub queue — result callbacks

A delivery that ends a generation `acked` or `dead_letter` is to be reported by one row of
`queue_result_callbacks`. A settlement writes the row itself; a lease that expires past the attempt
budget is reported by the next statement of the same pull; the retention statement of a pull reports
nothing.

`Reported s owed db` says that the callbacks of the subscription `s` are those its deliveries call
for, apart from the deliveries in `owed`, which a pull has dead-lettered and not reported yet. -/

namespace RelayHub.Queue

open List Table DeliveryRow

/-! ## What is to be reported -/

/-- The outcomes reported for a generation of a delivery. -/
def resultsOf (callbacks : List CallbackRow) (id : String) (generation : Nat) : List CallbackOutcome :=
  (callbacks.filter fun c => c.deliveryId = id && c.generation = generation).map (·.outcome)

/-- How a generation ended. An earlier one was replayed, so it ended in `dead_letter`. -/
def generationResult (d : DeliveryRow) (generation : Nat) : Option CallbackOutcome :=
  if generation < d.generation then some .failure
  else if generation = d.generation then
    match d.status with
    | .acked => some .success
    | .deadLetter => some .failure
    | _ => none
  else none

/-- The callbacks of `s` are those its deliveries call for, but for the current generation of the
deliveries in `owed`. -/
def Reported (s : String) (owed : List String) (db : QueueDb) : Prop :=
  ∀ d ∈ db.deliveries, d.subscriptionId = s → ∀ g, 1 ≤ g → resultsOf db.callbacks d.id g
      = if d.id ∈ owed ∧ g = d.generation then [] else (generationResult d g).toList

variable {db : QueueDb}

section Results

variable {callbacks new : List CallbackRow} {row : CallbackRow} {id : String} {g : Nat}

theorem resultsOf_eq_nil (h : ∀ c ∈ callbacks, c.deliveryId ≠ id) : resultsOf callbacks id g = [] := by
  rw [resultsOf, map_eq_nil_iff, filter_eq_nil_iff]
  intro c hc hmatch
  simp only [Bool.and_eq_true, decide_eq_true_eq] at hmatch
  exact h c hc hmatch.1

theorem resultsOf_insertAll_other (hnone : (new.filter fun c => c.deliveryId = id && c.generation = g) = []) :
    resultsOf (insertAllIgnore CallbackRow.key callbacks new) id g = resultsOf callbacks id g := by
  rw [resultsOf, filter_insertAllIgnore, hnone]
  · rfl
  · intro a b hk
    obtain ⟨hid, hgen, -⟩ := by simpa [CallbackRow.key] using hk
    rw [hid, hgen]

/-- The one row for a generation that is not reported yet, or is reported with that outcome. -/
theorem resultsOf_insertAll_one (hone : (new.filter fun c => c.deliveryId = id && c.generation = g) = [row])
    (h : resultsOf callbacks id g = [] ∨ resultsOf callbacks id g = [row.outcome]) :
    resultsOf (insertAllIgnore CallbackRow.key callbacks new) id g = [row.outcome] := by
  have hrow : row.deliveryId = id ∧ row.generation = g := by
    have hmem : row ∈ new.filter fun c => c.deliveryId = id && c.generation = g := by simp [hone]
    simpa using (mem_filter.mp hmem).2
  rw [resultsOf, filter_insertAllIgnore, hone]
  · rcases h with h | h
    · rw [resultsOf, map_eq_nil_iff] at h
      rw [h]
      rfl
    · -- the stored row has the key of the new one
      rw [resultsOf, map_eq_singleton_iff] at h
      obtain ⟨c, hc, hout⟩ := h
      have hmatch : c.deliveryId = id ∧ c.generation = g := by
        have hmem : c ∈ callbacks.filter fun c => c.deliveryId = id && c.generation = g := by
          simp [hc]
        simpa using (mem_filter.mp hmem).2
      have hkey : c.key = row.key := by
        simp [CallbackRow.key, hmatch.1, hmatch.2, hrow.1, hrow.2, hout]
      rw [hc]
      simp [insertAllIgnore, insertIgnore, hkey, hout]
  · intro a b hk
    obtain ⟨hid, hgen, -⟩ := by simpa [CallbackRow.key] using hk
    rw [hid, hgen]

end Results

/-! ## How a generation's result changes -/

variable {d : DeliveryRow} {s : String} {owed : List String} {db' : QueueDb} {sub : QueueSubscription} {now : Int}
  {gaps : Nat → List DeadLetterOp} {D : Digests}

theorem generationResult_of_active (h : d.isActive = true) {g : Nat} (hg : d.generation ≤ g) :
    generationResult d g = none := by
  rw [generationResult, if_neg (by omega)]
  split
  · cases hstatus : d.status with
    | acked =>
      simp [isActive, isAvailable, isInFlight, lease?, hstatus] at h
    | deadLetter => rw [not_isActive_of_deadLetter hstatus] at h; cases h
    | available | inFlight => rfl
  · rfl

/-- Between unfinished states of one generation nothing is to be reported. -/
theorem generationResult_active_eq {d' : DeliveryRow} (hgen : d'.generation = d.generation) (h : d.isActive = true)
    (h' : d'.isActive = true) (g : Nat) : generationResult d' g = generationResult d g := by
  by_cases hlt : g < d.generation
  · rw [generationResult, generationResult, hgen, if_pos hlt, if_pos hlt]
  · rw [generationResult_of_active h (by omega), generationResult_of_active h' (by omega)]

/-- A replay ends the dead-lettered generation and opens one with nothing to report. -/
theorem generationResult_replayRow (h : d.status = .deadLetter) (now : Int) (g : Nat) :
    generationResult (replayRow now d) g = generationResult d g := by
  have hgen : (replayRow now d).generation = d.generation + 1 := rfl
  have hactive : (replayRow now d).isActive = true := isActive_of_available rfl
  by_cases hlt : g < d.generation + 1
  · rw [generationResult, hgen, if_pos hlt, generationResult]
    by_cases hg : g < d.generation
    · rw [if_pos hg]
    · rw [if_neg hg, if_pos (by omega), h]
  · rw [generationResult_of_active hactive (by omega), generationResult, if_neg (by omega), if_neg (by omega)]

theorem generationResult_of_ne {d' : DeliveryRow} (hgen : d'.generation = d.generation) {g : Nat}
    (hne : g ≠ d.generation) : generationResult d' g = generationResult d g := by
  rw [generationResult, generationResult, hgen, if_neg hne, if_neg hne]

/-! ## The statements -/

/-- A row the pull has written is out of reach for a replay or a delete in a gap. -/
theorem deadLetterTarget_locked {appId subscriptionId : String} {ids locked : List String} (h : d.id ∈ locked) :
    deadLetterTarget db appId subscriptionId (ids.filter (!locked.contains ·)) d = false := by
  simp [deadLetterTarget, h]

namespace Reported

variable {db : QueueDb}

/-- An update that changes no result of a delivery of `s`. -/
theorem update (h : Reported s owed db) {p : DeliveryRow → Bool} {f : DeliveryRow → DeliveryRow}
    (hd : db'.deliveries = updateWhere p f db.deliveries) (hc : db'.callbacks = db.callbacks)
    (hsame : ∀ d, SameDelivery d (f d))
    (hkeep : ∀ d ∈ db.deliveries, p d = true → d.subscriptionId = s →
      d.id ∉ owed ∧ ∀ g, generationResult (f d) g = generationResult d g) :
    Reported s owed db' := by
  intro d' hd' hs g hg
  rw [hd] at hd'
  rw [hc]
  rcases mem_updateWhere_cases hd' with ⟨d, hmem, hp, rfl⟩ | ⟨hmem, -⟩
  · have hsub : d.subscriptionId = s := (hsame d).subscriptionId ▸ hs
    obtain ⟨hfree, hres⟩ := hkeep d hmem hp hsub
    rw [(hsame d).id, if_neg (fun hin => hfree hin.1), hres g, h d hmem hsub g hg, if_neg (fun hin => hfree hin.1)]
  · exact h d' hmem hs g hg

/-- A replay or a delete that leaves the owed deliveries alone. -/
theorem apply (h : Reported s owed db) {locked : List String} (howed : owed ⊆ locked)
    (op : DeadLetterOp) : Reported s owed (op.apply locked db) := by
  cases op with
  | delete =>
    exact fun d hd => h d (mem_of_mem_filter hd)
  | replay appId subscriptionId ids now =>
    refine h.update rfl rfl (replayRow_same now) fun d _ htarget _ => ⟨fun hin => ?_, ?_⟩
    · rw [deadLetterTarget_locked (howed hin)] at htarget
      cases htarget
    · exact generationResult_replayRow (deadLetterTarget_status htarget) now

theorem lease (h : Reported s [] db) {item : DeliveryRow} (hitem : item ∈ db.deliveries)
    (havailable : item.status = .available) (hnd : db.Keyed) (D : Digests)
    (terms : LeaseTerms) (receipt : String) :
    Reported s [] (leasedDb D terms receipt item db) := by
  refine h.update rfl rfl (leaseRow_same terms _ item) fun d hd hid _ => ⟨by simp, fun g => ?_⟩
  obtain rfl : d = item := eq_of_key_eq hnd hd hitem (of_decide_eq_true hid)
  have hflight : (leaseRow terms (queueReceiptHash D receipt) d d).isInFlight = true := rfl
  have hgen : (leaseRow terms (queueReceiptHash D receipt) d d).generation = d.generation := rfl
  exact generationResult_active_eq hgen (isActive_of_available havailable) (isActive_of_isInFlight hflight) g

theorem extend (h : Reported s [] db) (D : Digests) (appId subscriptionId : String)
    (extension : QueueLeaseExtension) (now : Int) :
    Reported s [] (extendQueueLease D appId subscriptionId extension now db).2 := by
  refine h.update rfl rfl (extendRow_same extension.extension now) fun d _ htarget _ =>
    ⟨by simp, fun g => ?_⟩
  obtain ⟨l, hl, -, -⟩ := receiptTarget_lease htarget
  have hflight : d.isInFlight = true := isInFlight_iff.mpr ⟨l, hl⟩
  obtain ⟨hgen, -, hkeeps⟩ := extendRow_keeps extension.extension now d
  exact generationResult_active_eq hgen (isActive_of_isInFlight hflight)
    (isActive_of_isInFlight (hkeeps.trans hflight)) g

end Reported

/-! ## Expired leases -/

/-- The deliveries whose lease expired and whose attempts are used up. -/
def exhaustedIds (sub : QueueSubscription) (now : Int) (db : QueueDb) : List String :=
  idsWhere (fun d => reclaimable sub.id now d && decide (sub.maxAttempts ≤ d.attempts)) db

/-- The deliveries in `owed` are the ones the callback statement looks for. -/
def Owes (sub : QueueSubscription) (now : Int) (owed : List String) (db : QueueDb) : Prop :=
  ∀ d ∈ db.deliveries, d.id ∈ owed → justExhausted sub.id now d = true

section Expired

variable {db : QueueDb}

theorem exhaustedIds_subset : exhaustedIds sub now db ⊆ idsWhere (reclaimable sub.id now) db := by
  intro id hid
  obtain ⟨d, hd, rfl⟩ := mem_map.mp hid
  obtain ⟨hmem, hcond⟩ := mem_filter.mp hd
  exact mem_map_of_mem (mem_filter.mpr ⟨hmem, (Bool.and_eq_true _ _ ▸ hcond).1⟩)

/-- Ids are unique, so an id in the list is that of a row that meets the condition. -/
theorem mem_exhaustedIds (hnd : db.Keyed) (hd : d ∈ db.deliveries) : d.id ∈ exhaustedIds sub now db ↔
      reclaimable sub.id now d = true ∧ sub.maxAttempts ≤ d.attempts := by
  constructor
  · intro hid
    obtain ⟨e, he, heq⟩ := mem_map.mp hid
    obtain ⟨hmem, hcond⟩ := mem_filter.mp he
    obtain rfl : e = d := eq_of_key_eq hnd hmem hd heq
    simpa using hcond
  · intro hcond
    exact mem_map_of_mem (mem_filter.mpr ⟨hd, by simpa using hcond⟩)

theorem reclaimable_lease (h : reclaimable sub.id now d = true) : ∃ l, d.status = .inFlight l := by
  simp only [reclaimable, Bool.and_eq_true] at h
  obtain ⟨-, hexpired⟩ := h
  unfold leaseExpired at hexpired
  split at hexpired
  next l hl => exact ⟨l, hl⟩
  · cases hexpired

theorem justExhausted_reclaimRow (h : reclaimable sub.id now d = true) (hspent : sub.maxAttempts ≤ d.attempts) :
    justExhausted sub.id now (reclaimRow sub now d) = true := by
  obtain ⟨l, hl⟩ := reclaimable_lease h
  have hsub : d.subscriptionId = sub.id := by
    simp only [reclaimable, Bool.and_eq_true, decide_eq_true_eq] at h
    exact h.1
  simp [justExhausted, reclaimRow, hl, hspent, hsub, isDeadLetter]

/-- The reclaim statement owes a report for what it dead-letters. -/
theorem Reported.reclaim (h : Reported s [] db) (hnd : db.Keyed) :
    Reported s (exhaustedIds sub now db) (reclaimExpired sub now db) := by
  intro d' hd' hs g hg
  obtain ⟨d, hmem, rfl⟩ := mem_updateWhere.mp hd'
  have hsame := (reclaimRow_same sub now d).ite (p := reclaimable sub.id now d)
  have hstored := h d hmem (hsame.subscriptionId ▸ hs) g hg
  rw [if_neg (by simp)] at hstored
  rw [hsame.id]
  show resultsOf db.callbacks d.id g = _
  rw [hstored]
  by_cases hhit : reclaimable sub.id now d = true
  · obtain ⟨l, hl⟩ := reclaimable_lease hhit
    have hactive : d.isActive = true := isActive_of_isInFlight (isInFlight_iff.mpr ⟨l, hl⟩)
    rw [if_pos hhit, reclaimRow_generation]
    by_cases hspent : sub.maxAttempts ≤ d.attempts
    · have howed : d.id ∈ exhaustedIds sub now db := (mem_exhaustedIds hnd hmem).mpr ⟨hhit, hspent⟩
      by_cases hg' : g = d.generation
      · rw [if_pos ⟨howed, hg'⟩, generationResult_of_active hactive (by omega)]
        rfl
      · rw [if_neg (fun hin => hg' hin.2), generationResult_of_ne (reclaimRow_generation sub now d) hg']
    · have hfree : d.id ∉ exhaustedIds sub now db :=
        fun hin => hspent ((mem_exhaustedIds hnd hmem).mp hin).2
      rw [if_neg (fun hin => hfree hin.1), generationResult_active_eq (reclaimRow_generation sub now d) hactive
        (isActive_of_available (by simp [reclaimRow, hl, hspent]))]
  · have hfree : d.id ∉ exhaustedIds sub now db :=
      fun hin => hhit ((mem_exhaustedIds hnd hmem).mp hin).1
    rw [if_neg hhit, if_neg (fun hin => hfree hin.1)]

theorem Owes.reclaim (hnd : db.Keyed) : Owes sub now (exhaustedIds sub now db) (reclaimExpired sub now db) := by
  intro d' hd' hin
  obtain ⟨d, hmem, rfl⟩ := mem_updateWhere.mp hd'
  rw [((reclaimRow_same sub now d).ite).id] at hin
  obtain ⟨hhit, hspent⟩ := (mem_exhaustedIds hnd hmem).mp hin
  rw [if_pos hhit]
  exact justExhausted_reclaimRow hhit hspent

theorem Owes.apply {locked : List String} (h : Owes sub now owed db) (howed : owed ⊆ locked) (op : DeadLetterOp) :
    Owes sub now owed (op.apply locked db) := by
  cases op with
  | delete => exact fun d hd => h d (mem_of_mem_filter hd)
  | replay appId subscriptionId ids t =>
    intro d' hd' hin
    obtain ⟨d, hmem, rfl⟩ := mem_updateWhere.mp hd'
    rw [((replayRow_same t d).ite).id] at hin
    rw [if_neg (ne_true_of_eq_false (deadLetterTarget_locked (howed hin)))]
    exact h d hmem hin

/-! ## The callback statement -/

/-- Of the rows inserted for the deliveries that `q` picks, those for one generation of `d`. -/
theorem filter_callbacks_of {rows : List DeliveryRow} (hnd : (rows.map (·.id)).Nodup)
    (hd : d ∈ rows) (q : DeliveryRow → Bool) {f : DeliveryRow → CallbackRow}
    (hid : ∀ e, (f e).deliveryId = e.id) (hgen : ∀ e, (f e).generation = e.generation) (g : Nat) :
    (((rows.filter q).map f).filter fun c => c.deliveryId = d.id && c.generation = g)
      = if q d = true ∧ g = d.generation then [f d] else [] := by
  have hone : rows.filter (fun e => decide (e.id = d.id) && decide (e.generation = g) && q e)
      = [d].filter (fun e => decide (e.generation = g) && q e) := by
    rw [← filter_key_eq_singleton hnd hd, filter_filter]
    congr 1
    funext e
    cases decide (e.id = d.id) <;> cases decide (e.generation = g) <;> cases q e <;> rfl
  rw [filter_map, filter_filter]
  simp only [Function.comp_def, hid, hgen]
  rw [hone]
  by_cases hq : q d = true
  · by_cases hg : g = d.generation
    · simp [hq, hg]
    · have hg' : ¬ d.generation = g := fun heq => hg heq.symm
      simp [hg, hg']
  · simp [hq]

/-- **What was owed is reported.** What the statement finds beside that has its row already. -/
theorem Reported.failureCallbacks (h : Reported sub.id owed db) (howes : Owes sub now owed db) (hnd : db.Keyed)
    (hurl : sub.failureCallbackURL.isSome = true) : Reported sub.id [] (insertFailureCallbacks sub now db) := by
  obtain ⟨url, hurl⟩ := Option.isSome_iff_exists.mp hurl
  intro d hd hs g hg
  rw [insertFailureCallbacks_deliveries] at hd
  rw [insertFailureCallbacks, hurl]
  have hstored := h d hd hs g hg
  have hrows := filter_callbacks_of hnd hd (justExhausted sub.id now)
    (f := fun d => resultCallback d.appId d.subscriptionId d.id d.eventId d.generation d.attempts
      .failure url sub.resultCallbackMetadata now) (fun _ => rfl) (fun _ => rfl) g
  by_cases hfound : justExhausted sub.id now d = true ∧ g = d.generation
  · obtain ⟨hexhausted, rfl⟩ := hfound
    rw [if_pos ⟨hexhausted, rfl⟩] at hrows
    have hdead : d.status = .deadLetter := by
      simp only [justExhausted, Bool.and_eq_true] at hexhausted
      exact isDeadLetter_iff.mp hexhausted.1.1.2
    have hresult : generationResult d d.generation = some .failure := by simp [generationResult, hdead]
    rw [hresult] at hstored ⊢
    refine resultsOf_insertAll_one hrows ?_
    split at hstored
    · exact .inl hstored
    · exact .inr hstored
  · rw [if_neg hfound] at hrows
    have hpaid : ¬ (d.id ∈ owed ∧ g = d.generation) :=
      fun hin => hfound ⟨howes d hd hin.1, hin.2⟩
    rw [if_neg hpaid] at hstored
    rw [← hstored]
    exact resultsOf_insertAll_other hrows

theorem Reported.failureCallbacks_other (h : Reported s owed db) (hne : sub.id ≠ s) (hnd : db.Keyed) :
    Reported s owed (insertFailureCallbacks sub now db) := by
  intro d hd hs g hg
  rw [insertFailureCallbacks_deliveries] at hd
  rw [← h d hd hs g hg, insertFailureCallbacks]
  cases hurl : sub.failureCallbackURL with
  | none => rfl
  | some =>
    refine resultsOf_insertAll_other ?_
    rw [filter_callbacks_of hnd hd (justExhausted sub.id now) (fun _ => rfl) (fun _ => rfl) g]
    have hmiss : justExhausted sub.id now d = false := by
      have hother : ¬ d.subscriptionId = sub.id := fun heq => hne (heq.symm.trans hs)
      simp [justExhausted, hother]
    simp [hmiss]

/-- The retention statement reports nothing, so it must find nothing of `s`. -/
theorem Reported.expire (h : Reported s [] db)
    (hnone : ∀ d ∈ db.deliveries, d.subscriptionId = s → retentionExpired sub.id now d = false) :
    Reported s [] (expireRetained sub now db) := by
  refine h.update rfl rfl (expireRow_same now) fun d hd hp hs => ?_
  rw [hnone d hd hs] at hp
  cases hp

theorem Reported.reclaim_other (h : Reported s [] db) (hne : sub.id ≠ s) :
    Reported s [] (reclaimExpired sub now db) := by
  refine h.update rfl rfl (reclaimRow_same sub now) fun d _ hp hs => ?_
  simp only [reclaimable, Bool.and_eq_true, decide_eq_true_eq] at hp
  exact absurd (hp.1.symm.trans hs) hne

end Expired

/-! ## Retention -/

/-- The statement is a replay of `d`. -/
def DeadLetterOp.replays (db : QueueDb) (d : DeliveryRow) : DeadLetterOp → Bool
  | .replay appId subscriptionId ids _ => deadLetterTarget db appId subscriptionId ids d
  | .delete _ _ _ => false

/-- The pull may find `d` available when its retention statement runs: it is, its lease has expired
with attempts left, or a replay commits before. -/
def waitsInPull (sub : QueueSubscription) (now : Int) (gaps : Nat → List DeadLetterOp) (db : QueueDb)
    (d : DeliveryRow) : Bool :=
  d.isAvailable || (reclaimable sub.id now d && decide (d.attempts < sub.maxAttempts))
    || (gaps 0 ++ gaps 1).any (DeadLetterOp.replays db d)

/-- The subscription of a pull accepts pulls. -/
def SubscriptionRow.pullsNow (sub : SubscriptionRow) : Bool :=
  sub.drainingAt.isNone && sub.enabled && sub.pausedAt.isNone

/-- The step is no pull that finds a waiting delivery of `s` past its retention. -/
def keepsRetention (s : String) (db : QueueDb) : QueueOp → Bool
  | .pull request gaps =>
    match db.findSubscription request.appId request.subscriptionId with
    | none => true
    | some sub =>
      decide (sub.id ≠ s) || !sub.pullsNow || db.deliveries.all fun d =>
        decide (d.subscriptionId ≠ s) || !waitsInPull sub.toQueueSubscription request.now gaps db d
          || decide (request.now < d.expiresAt)
  | _ => true

/-- No waiting delivery of `s` is past its retention. -/
def InRetention (s : String) (now : Int) (db : QueueDb) : Prop :=
  ∀ d ∈ db.deliveries, d.subscriptionId = s → d.isAvailable = true → now < d.expiresAt

namespace InRetention

variable {db db₀ : QueueDb}

theorem not_expired (h : InRetention s now db) :
    ∀ d ∈ db.deliveries, d.subscriptionId = s → retentionExpired sub.id now d = false := by
  intro d hd hs
  cases havailable : d.isAvailable with
  | false => simp [retentionExpired, havailable]
  | true =>
    have hlater : ¬ d.expiresAt ≤ now := not_le.mpr (h d hd hs havailable)
    simp [retentionExpired, hlater]

theorem reclaim (h : ∀ d ∈ db.deliveries, d.subscriptionId = s →
      waitsInPull sub now gaps db d = true → now < d.expiresAt) :
    InRetention s now (reclaimExpired sub now db) := by
  intro d' hd' hs havailable
  rcases mem_updateWhere_cases hd' with ⟨d, hmem, hhit, rfl⟩ | ⟨hmem, -⟩
  · have hsame := reclaimRow_same sub now d
    rw [hsame.expiresAt]
    refine h d hmem (hsame.subscriptionId ▸ hs) ?_
    obtain ⟨l, hl⟩ := reclaimable_lease hhit
    have hleft : d.attempts < sub.maxAttempts := by
      by_contra hspent
      -- past the budget the row is dead-lettered
      simp [reclaimRow, hl, not_lt.mp hspent, isAvailable] at havailable
    simp [waitsInPull, hhit, hleft]
  · exact h d' hmem hs (by simp [waitsInPull, havailable])

theorem apply {written : List String} {op : DeadLetterOp} (h : InRetention s now db)
    (hstart : ∀ d ∈ db₀.deliveries, d.subscriptionId = s → waitsInPull sub now gaps db₀ d = true → now < d.expiresAt)
    (hop : op ∈ gaps 0 ++ gaps 1) (ht : Traces db₀ written [] db) :
    InRetention s now (op.apply written db) := by
  cases op with
  | delete => exact fun d hd => h d (mem_of_mem_filter hd)
  | replay appId subscriptionId ids =>
    intro d' hd' hs havailable
    rcases mem_updateWhere_cases hd' with ⟨d, hmem, htarget, rfl⟩ | ⟨hmem, -⟩
    · obtain ⟨d₀, hd₀, hsame, htarget₀⟩ := ht.target_start hmem htarget
      have hwaits : waitsInPull sub now gaps db₀ d₀ = true := by
        have hany : (gaps 0 ++ gaps 1).any (DeadLetterOp.replays db₀ d₀) = true :=
          any_eq_true.mpr ⟨_, hop, htarget₀⟩
        simp only [waitsInPull, hany, Bool.or_true]
      have hlater := hstart d₀ hd₀ (hsame.subscriptionId ▸ hs) hwaits
      rw [← hsame.expiresAt] at hlater
      exact hlater
    · exact h d' hmem hs havailable

end InRetention

/-! ## A pull -/

section Pull

variable {db : QueueDb}

theorem pullPrepare_reported_other (hne : sub.id ≠ s) (hnd : db.Keyed) (h : Reported s [] db)
    {db₁ : QueueDb} {written : List String} (hprepare : pullPrepare gaps sub now db = (db₁, written)) :
    Traces db written [] db₁ ∧ Reported s [] db₁ := by
  have hall := pullPrepare_rule (J := fun db₁ => db₁.Keyed ∧ Reported s [] db₁) hnd
    ⟨(Traces.reclaim hnd sub now).ids, h.reclaim_other hne⟩
    (fun _ _ ht h₁ => ⟨(ht.apply _).ids, h₁.2.apply (by simp) _⟩)
    (fun h₁ => ⟨by rw [QueueDb.Keyed, insertFailureCallbacks_deliveries]; exact h₁.1,
      h₁.2.failureCallbacks_other hne h₁.1⟩)
    (fun h₁ => ⟨((Traces.start h₁.1 []).expire sub now).ids, h₁.2.expire fun d _ hs => by
      have hother : ¬ d.subscriptionId = sub.id := fun heq => hne (heq.symm.trans hs)
      simp [retentionExpired, hother]⟩) hprepare
  exact ⟨hall.1, hall.2.2⟩

/-- **A pull on the subscription, up to its counts.** The reclaim statement runs up a debt, the
callback statement pays it, and the retention statement finds nothing. -/
theorem pullPrepare_reported (hnd : db.Keyed) (h : Reported sub.id [] db) (hurl : sub.failureCallbackURL.isSome = true)
    (hstart : ∀ d ∈ db.deliveries, d.subscriptionId = sub.id → waitsInPull sub now gaps db d = true → now < d.expiresAt)
    {db₁ : QueueDb} {written : List String} (hprepare : pullPrepare gaps sub now db = (db₁, written)) :
    Traces db written [] db₁ ∧ Reported sub.id [] db₁ := by
  obtain ⟨rfl, rfl⟩ := Prod.mk.inj hprepare
  obtain ⟨ht, hreported, howes, hfresh⟩ := interleave_rule
    (J := fun db₁ => Reported sub.id (exhaustedIds sub now db) db₁ ∧
      Owes sub now (exhaustedIds sub now db) db₁ ∧ InRetention sub.id now db₁)
    (fun {op} {_} hop ht h₁ => ⟨h₁.1.apply exhaustedIds_subset op, h₁.2.1.apply exhaustedIds_subset op,
      h₁.2.2.apply hstart (mem_append_left (gaps 1) hop) ht⟩)
    (.reclaim hnd sub now) ⟨h.reclaim hnd, .reclaim hnd, .reclaim hstart⟩
  have hpaid := hreported.failureCallbacks howes ht.ids hurl
  have hfresh' : InRetention sub.id now (insertFailureCallbacks sub now
      (interleave (idsWhere (reclaimable sub.id now) db) (gaps 0) (reclaimExpired sub now db))) :=
    fun d hd => hfresh d (insertFailureCallbacks_deliveries sub now _ ▸ hd)
  obtain ⟨ht, hpaid, hfresh⟩ := interleave_rule (J := fun db₁ => Reported sub.id [] db₁ ∧ InRetention sub.id now db₁)
    (fun {op} {_} hop ht h₁ => ⟨h₁.1.apply (by simp) op, h₁.2.apply hstart (mem_append_right (gaps 0) hop) ht⟩)
    (ht.failureCallbacks sub now) ⟨hpaid, hfresh'⟩
  exact interleave_rule (J := Reported sub.id []) (fun {op} {_} _ _ h₁ => h₁.apply (by simp) op)
    (ht.expire sub now) (hpaid.expire hfresh.not_expired)

/-- The success and the failure callback URL of `s` are set. -/
def CallbacksSet (s : String) (db : QueueDb) : Prop :=
  ∀ x ∈ db.subscriptions, x.id = s → x.successCallbackURL.isSome = true ∧ x.failureCallbackURL.isSome = true

instance (s : String) (db : QueueDb) : Decidable (CallbacksSet s db) := by
  unfold CallbacksSet
  infer_instance

theorem PullCase.reported {request : QueuePullRequest} {leased : List QueueDelivery}
    (hcase : PullCase D gaps db request leased db') (hnd : db.Keyed)
    (h : Reported s [] db) (hurls : CallbacksSet s db)
    (hstart : ∀ sub : SubscriptionRow,
      db.findSubscription request.appId request.subscriptionId = some sub → sub.id = s →
      ∀ d ∈ db.deliveries, d.subscriptionId = s → waitsInPull sub.toQueueSubscription request.now gaps db d = true →
          request.now < d.expiresAt) : Reported s [] db' := by
  have hcounted : ∀ {sub : SubscriptionRow} {db₁ written},
      db.findSubscription request.appId request.subscriptionId = some sub →
      pullPrepare gaps sub.toQueueSubscription request.now db = (db₁, written) →
      Traces db written [] db₁ ∧ Reported s [] db₁ := by
    intro sub db₁ written hsub hprepare
    by_cases hid : sub.id = s
    · subst hid
      exact pullPrepare_reported hnd h (hurls sub (findSubscription_some hsub).1 rfl).2 (hstart sub hsub rfl) hprepare
    · exact pullPrepare_reported_other hid hnd h hprepare
  have hgaps : ∀ {k written db₁}, Traces db written [] db₁ → Reported s [] db₁ →
      Traces db written [] (interleave written (gaps k) db₁) ∧
        Reported s [] (interleave written (gaps k) db₁) := fun ht h₁ =>
    interleave_rule (J := Reported s []) (fun {op} {_} _ _ h₂ => h₂.apply (by simp) op) ht h₁
  cases hcase with
  | draining => exact h
  | full sub hsub db₁ db₂ written hprepare hgap =>
    obtain ⟨ht₁, h₁⟩ := hcounted hsub hprepare
    rw [hgap]
    exact (hgaps ht₁ h₁).2
  | leasing sub hsub db₁ db₂ db₃ db' written hprepare hgap limit hpos hlimit hgap' leased hlease =>
    obtain ⟨ht₁, h₁⟩ := hcounted hsub hprepare
    obtain ⟨ht₂, h₂⟩ := hgaps ht₁ h₁
    rw [← hgap] at ht₂ h₂
    obtain ⟨ht₃, h₃⟩ := hgaps ht₂ h₂
    rw [← hgap'] at ht₃ h₃
    refine leaseSelected_rule (J := fun _ _ db₁ => Reported s [] db₁) ?_ ?_ (ht₃.select rfl) (.select ht₃.ids) hlease h₃
    · exact fun _ _ _ _ _ h₄ => h₄.apply (by simp) _
    · intro item e rest receipt acc db₄ ht hwait hmem h₄
      obtain ⟨hitem, havailable⟩ := hwait.stored (item, e) mem_cons_self
      exact h₄.lease hitem havailable ht.ids D _ receipt

end Pull

/-! ## A settlement -/

section Settle

variable {db : QueueDb}

theorem settleRow_ended {maxAttempts availableAt : Int} {next : NextStatus} {reason : String}
    (h : (settleRow maxAttempts next availableAt reason now d).isAvailable = false) :
    (settleRow maxAttempts next availableAt reason now d).status = .acked ∨
      (settleRow maxAttempts next availableAt reason now d).status = .deadLetter := by
  unfold settleRow at h ⊢
  dsimp only at h ⊢
  split at h
  · exact .inr (by simp [*])
  cases next with
  | acked => exact .inl (by simp [*])
  | deadLetter => exact .inr (by simp [*])
  | available => cases h

/-- The row of a settlement, if its URL is set, is for the generation that ended. -/
theorem insertQueueResultCallback_rows (sub : QueueSubscription) (d : DeliveryRow) (now : Int)
    (callbacks : List CallbackRow) :
    ∃ new, insertQueueResultCallback sub d now callbacks = insertAllIgnore CallbackRow.key callbacks new ∧
      ∀ c ∈ new, c.deliveryId = d.id ∧ c.generation = d.generation := by
  unfold insertQueueResultCallback
  dsimp only
  split
  · exact ⟨[], rfl, by simp⟩
  · refine ⟨[_], rfl, fun c hc => ?_⟩
    rw [mem_singleton.mp hc]
    exact ⟨rfl, rfl⟩

/-- With both URLs set there is one row, and its outcome is the result of the generation. -/
theorem insertQueueResultCallback_ended (now : Int) (callbacks : List CallbackRow)
    (hsuccess : sub.successCallbackURL.isSome = true) (hfailure : sub.failureCallbackURL.isSome = true)
    (hend : d.status = .acked ∨ d.status = .deadLetter) :
    ∃ row, insertQueueResultCallback sub d now callbacks
        = insertAllIgnore CallbackRow.key callbacks [row] ∧ row.deliveryId = d.id ∧
      row.generation = d.generation ∧ generationResult d d.generation = some row.outcome := by
  obtain ⟨success, hsuccess⟩ := Option.isSome_iff_exists.mp hsuccess
  obtain ⟨failure, hfailure⟩ := Option.isSome_iff_exists.mp hfailure
  unfold insertQueueResultCallback
  rcases hend with hstatus | hstatus
  · have hdead : d.isDeadLetter = false := by simp [isDeadLetter, hstatus]
    simp only [hdead, hsuccess]
    exact ⟨_, rfl, rfl, rfl, by simp [generationResult, hstatus, resultCallback]⟩
  · have hdead : d.isDeadLetter = true := isDeadLetter_iff.mpr hstatus
    simp only [hdead, hfailure]
    exact ⟨_, rfl, rfl, rfl, by simp [generationResult, hstatus, resultCallback]⟩

/-- Each hash is held by one delivery at most. -/
def HeldOnce (db : QueueDb) : Prop :=
  ∀ d ∈ db.deliveries, ∀ e ∈ db.deliveries, ∀ l l', d.status = .inFlight l → e.status = .inFlight l' →
    l.receiptHash = l'.receiptHash → d = e

theorem reach_heldOnce {ops : List QueueOp} (h : DistinctReceipts D ops) : HeldOnce (reach D ops) := by
  intro d hd e he l l' hl hl' hhash
  have hsame := holds_unique h ⟨d, hd, rfl, rfl, rfl, l, hl, rfl⟩ ⟨e, he, rfl, rfl, rfl, l', hl', hhash.symm⟩
  exact eq_of_key_eq (reach_ids_nodup D ops) hd he hsame.1

/-- The callbacks after a settlement that ends the generation of `d`. -/
theorem resultsOf_settled {d' : DeliveryRow} {callbacks : List CallbackRow} {g : Nat}
    (hsuccess : sub.successCallbackURL.isSome = true) (hfailure : sub.failureCallbackURL.isSome = true)
    (hend : d'.status = .acked ∨ d'.status = .deadLetter) (hid : d'.id = d.id) (hgen : d'.generation = d.generation)
    (hactive : d.isActive = true) (hbefore : resultsOf callbacks d.id g = (generationResult d g).toList) :
    resultsOf (insertQueueResultCallback sub d' now callbacks) d'.id g = (generationResult d' g).toList := by
  obtain ⟨row, hrow, hrowId, hrowGen, hresult⟩ :=
    insertQueueResultCallback_ended now callbacks hsuccess hfailure hend
  rw [hrow]
  by_cases hg : g = d'.generation
  · -- nothing was reported while the delivery was in flight
    have hnone : resultsOf callbacks d'.id g = [] := by
      rw [hid, hbefore, generationResult_of_active hactive (by omega)]
      rfl
    rw [hg, hresult]
    rw [hg] at hnone
    exact resultsOf_insertAll_one (by simp [hrowId, hrowGen]) (.inl hnone)
  · have hne : ¬ row.generation = g := fun heq => hg (heq.symm.trans hrowGen)
    rw [resultsOf_insertAll_other (by simp [hne]), hid, hbefore,
      generationResult_of_ne hgen (fun heq => hg (heq.trans hgen.symm))]

/-- **A settlement reports what it ends.** -/
theorem Reported.settle (h : Reported s [] db) (hheld : HeldOnce db) (hnd : db.Keyed) {settlement : QueueSettlement}
    {next : NextStatus} {availableAt : Int}
    (hfind : db.deliveries.find? (receiptTarget D sub.appId sub.id settlement.receipt now) = some d)
    (hurls : sub.id = s → sub.successCallbackURL.isSome = true ∧ sub.failureCallbackURL.isSome = true) :
    Reported s [] (settledDb D sub settlement next availableAt now d db) := by
  have hd : d ∈ db.deliveries := mem_of_find?_eq_some hfind
  have htarget := find?_some hfind
  obtain ⟨l, hl, hhash, -⟩ := receiptTarget_lease htarget
  have hactive : d.isActive = true := isActive_of_isInFlight (isInFlight_iff.mpr ⟨l, hl⟩)
  have howner : d.subscriptionId = sub.id := by
    simp only [receiptTarget, Bool.and_eq_true, decide_eq_true_eq] at htarget
    exact htarget.1.1
  -- the update changes `d` alone
  have honly : ∀ e ∈ db.deliveries, receiptTarget D sub.appId sub.id settlement.receipt now e = true → e = d := by
    intro e he htarget'
    obtain ⟨l', hl', hhash', -⟩ := receiptTarget_lease htarget'
    exact hheld e he d hd l' l hl' hl (hhash'.trans hhash.symm)
  by_cases havailable : (settleRow sub.maxAttempts next availableAt settlement.reason now d).isAvailable = true
  · refine h.update rfl (by simp only [settledDb, if_pos havailable])
      (settleRow_same sub.maxAttempts next availableAt settlement.reason now)
      fun e he hp _ => ⟨by simp, fun g => ?_⟩
    obtain rfl := honly e he hp
    have hgen : (settleRow sub.maxAttempts next availableAt settlement.reason now e).generation = e.generation := rfl
    exact generationResult_active_eq hgen hactive (isActive_of_available (isAvailable_iff.mp havailable)) g
  · have hend := settleRow_ended (Bool.eq_false_iff.mpr havailable)
    have hcallbacks : (settledDb D sub settlement next availableAt now d db).callbacks = insertQueueResultCallback sub
          (settleRow sub.maxAttempts next availableAt settlement.reason now d) now db.callbacks := by
      simp only [settledDb, if_neg havailable]
    simp only [Reported, not_mem_nil, false_and, if_false] at h ⊢
    intro e' he' hs g hg
    rw [hcallbacks]
    rcases mem_updateWhere_cases he' with ⟨e, he, hp, rfl⟩ | ⟨he, hmiss⟩
    · obtain rfl := honly e he hp
      have hset := hurls (howner ▸ hs)
      exact resultsOf_settled (d := e) hset.1 hset.2 hend rfl rfl hactive (h e he hs g hg)
    · -- the row written is for another delivery
      obtain ⟨new, hnew, hrows⟩ := insertQueueResultCallback_rows sub
        (settleRow sub.maxAttempts next availableAt settlement.reason now d) now db.callbacks
      rw [hnew, resultsOf_insertAll_other, h e' he hs g hg]
      rw [filter_eq_nil_iff]
      intro c hc hmatch
      simp only [Bool.and_eq_true, decide_eq_true_eq] at hmatch
      have hid : d.id = e'.id := (hrows c hc).1.symm.trans hmatch.1
      obtain rfl : d = e' := eq_of_key_eq hnd hd he hid
      exact hmiss htarget

end Settle

/-! ## Delivery ids

The ids are digests of the event and the subscription, or of the schedule and the occurrence. Callback
rows outlive a deleted delivery, so a second delivery with its id would find them. No digest of a fixed
length is injective: that no two are equal is asked of the run. -/

/-- The ids of the deliveries a step inserts. -/
def insertedIds (t : Transition QueueDb QueueOp QueueOut) : List String :=
  (t.post.deliveries.map (·.id)).filter fun id => !t.pre.deliveries.any fun d => d.id = id

/-- The ids of all deliveries of a run, in the order of their insertion. -/
def deliveryIds (D : Digests) (ops : List QueueOp) : List String :=
  ((queue D).transitions {} ops).flatMap insertedIds

/-- Every delivery stored or reported has an id in the list. -/
structure Known (ids : List String) (db : QueueDb) : Prop where
  deliveries : ∀ d ∈ db.deliveries, d.id ∈ ids
  callbacks : ∀ c ∈ db.callbacks, c.deliveryId ∈ ids

theorem deliveryIds_concat (D : Digests) (ops : List QueueOp) (op : QueueOp) :
    deliveryIds D (ops ++ [op]) = deliveryIds D ops ++ insertedIds ⟨reach D ops, op,
      (queue D).out (reach D ops) op, (queue D).next (reach D ops) op⟩ := by
  rw [deliveryIds, Mealy.transitions_concat, flatMap_append, flatMap_singleton]
  rfl

theorem Effect.known {gs : List Grant} {ids : List String} (h : Effect D db gs db')
    (hk : Known ids db) : Known ids db' := by
  refine ⟨fun d' hd' => ?_, fun c hc => ?_⟩
  · obtain ⟨d, hd, hsame⟩ := h.mem_same hd'
    rw [hsame.id]
    exact hk.deliveries d hd
  · cases h with
    | failureCallbacks =>
      unfold insertFailureCallbacks at hc
      split at hc
      · exact hk.callbacks c hc
      rcases mem_or_mem_of_mem_insertAllIgnore hc with hc | hc
      · exact hk.callbacks c hc
      · obtain ⟨d, hd, rfl⟩ := mem_map.mp hc
        exact hk.deliveries d (mem_of_mem_filter hd)
    | settle sub hsub settlement next availableAt now d hfind =>
      have hd : d ∈ db.deliveries := mem_of_find?_eq_some hfind
      simp only [settledDb] at hc
      split at hc
      · exact hk.callbacks c hc
      obtain ⟨new, heq, hrows⟩ := insertQueueResultCallback_rows sub.toQueueSubscription
        (settleRow sub.maxAttempts next availableAt settlement.reason now d) now db.callbacks
      rw [heq] at hc
      rcases mem_or_mem_of_mem_insertAllIgnore hc with hc | hc
      · exact hk.callbacks c hc
      · rw [(hrows c hc).1]
        exact hk.deliveries d hd
    | reclaim | expire | lease | extend | replay | delete => exact hk.callbacks c hc

theorem reach_known (D : Digests) (ops : List QueueOp) : Known (deliveryIds D ops) (reach D ops) := by
  induction ops using reverseRecOn with
  | nil => exact ⟨by simp [reach], by simp [reach]⟩
  | append_singleton ops op ih =>
    have hstored : ∀ d ∈ (reach D (ops ++ [op])).deliveries, d.id ∈ deliveryIds D (ops ++ [op]) := by
      intro d hd
      rw [reach_concat] at hd
      rw [deliveryIds_concat]
      by_cases hold : d.id ∈ (reach D ops).deliveries.map (·.id)
      · obtain ⟨e, he, hid⟩ := mem_map.mp hold
        exact mem_append_left _ (hid ▸ ih.deliveries e he)
      · refine mem_append_right _ (mem_filter.mpr ⟨mem_map_of_mem hd, ?_⟩)
        simpa using hold
    refine ⟨hstored, fun c hc => ?_⟩
    rw [deliveryIds_concat]
    refine mem_append_left _ ?_
    have hop := exec_operation (D := D) (reach_ids_nodup D ops) op
    rw [reach_concat] at hc
    generalize ((queue D).out (reach D ops) op).grants = gs, (queue D).next (reach D ops) op = db' at hop hc
    cases hop with
    | control h | enqueue rows h => exact ih.callbacks c (h.callbacks ▸ hc)
    | effects h =>
      exact (h.induction (P := fun db _ => Known (deliveryIds D ops) db) []
        (fun hstep hk => hstep.known hk) ih).callbacks c hc

/-! ## Runs -/

section Runs

variable {db : QueueDb}

theorem Reported.enqueue {rows : List DeliveryRow} (h : Reported s [] db) (hrows : Enqueues rows db db')
    (hfresh : ∀ d ∈ rows, ∀ c ∈ db.callbacks, c.deliveryId ≠ d.id) : Reported s [] db' := by
  intro d hd hs g hg
  rw [hrows.callbacks]
  rcases hrows.mem_cases hd with hd | hd
  · exact h d hd hs g hg
  -- a new delivery is in its first generation and has nothing to report
  have hnew := hrows.new d hd
  have hfirst : d.generation ≤ g := by
    rw [hnew.generation]
    exact hg
  rw [resultsOf_eq_nil (hfresh d hd), generationResult_of_active (isActive_of_available hnew.status) hfirst]
  rfl

theorem pull_idle {request : QueuePullRequest} {sub : SubscriptionRow}
    (hsub : db.findSubscription request.appId request.subscriptionId = some sub)
    (hidle : sub.pullsNow = false) : (queue D).next db (.pull request gaps) = db := by
  have hexec : (queue D).exec db (.pull request gaps) = commit .pulled db (pullQueueDeliveries D gaps db request) := rfl
  rw [Mealy.next, hexec, pullQueueDeliveries, hsub]
  dsimp only
  split
  · rfl
  next hdraining =>
  split
  · rfl
  next hready =>
  -- neither draining, disabled nor paused
  simp only [Bool.or_eq_true, not_or, Bool.not_eq_true'] at hdraining hready
  have hpulls : sub.pullsNow = true := by
    simp [SubscriptionRow.pullsNow, ← Option.not_isSome, hdraining, hready.1, hready.2]
  rw [hpulls] at hidle
  cases hidle

/-- **One step.** -/
theorem exec_reported (hnd : db.Keyed) (hheld : HeldOnce db)
    (h : Reported s [] db) (hurls : CallbacksSet s db) {op : QueueOp}
    (hkeeps : keepsRetention s db op = true)
    (hfresh : ∀ d ∈ ((queue D).next db op).deliveries, d.id ∉ db.deliveries.map (·.id) →
      ∀ c ∈ db.callbacks, c.deliveryId ≠ d.id) : Reported s [] ((queue D).next db op) := by
  have henqueue : ∀ {rows db'}, Enqueues rows db db' → (∀ d ∈ db'.deliveries, d.id ∉ db.deliveries.map (·.id) →
        ∀ c ∈ db.callbacks, c.deliveryId ≠ d.id) → Reported s [] db' := by
    intro rows db' hrows hnew
    refine h.enqueue hrows fun d hd => hnew d ?_ fun hold => ?_
    · rw [hrows.deliveries]
      exact mem_append_right _ hd
    · obtain ⟨e, he, hid⟩ := mem_map.mp hold
      exact hrows.fresh hnd d hd e he hid
  -- a pull that is refused or drained is settled before its statements are looked at
  by_cases hidle : ∃ request gaps sub, op = .pull request gaps ∧
      db.findSubscription request.appId request.subscriptionId = some sub ∧ sub.pullsNow = false
  · obtain ⟨request, gaps, sub, rfl, hsub, hidle⟩ := hidle
    rw [pull_idle hsub hidle]
    exact h
  have hcase := exec_cases D db op
  generalize (queue D).out db op = out, (queue D).next db op = db' at hcase hfresh ⊢
  cases hcase with
  | control hgrants hsame =>
    intro d hd
    rw [hsame.callbacks]
    exact h d (hsame.deliveries ▸ hd)
  | publish rows hrows | complete rows hrows => exact henqueue hrows hfresh
  | settle sub hsub next availableAt d hfind =>
    exact h.settle hheld hnd hfind (hurls sub (findSubscription_some hsub).1)
  | extend => exact h.extend D _ _ _ _
  | pull hcase =>
    refine hcase.reported hnd h hurls fun sub hsub hid d hd hs hwaits => ?_
    have hpulls : sub.pullsNow = true := by
      by_contra hno
      exact hidle ⟨_, _, sub, rfl, hsub, Bool.eq_false_iff.mpr hno⟩
    simp only [keepsRetention, hsub, hid, ne_eq, not_true_eq_false, decide_false, hpulls,
      Bool.not_true, Bool.false_or, all_eq_true] at hkeeps
    have hd' := hkeeps d hd
    simpa [hs, hwaits] using hd'
  | replay =>
    exact h.update rfl rfl (replayRow_same _) fun d _ htarget _ =>
      ⟨by simp, generationResult_replayRow (deadLetterTarget_status htarget) _⟩
  | delete => exact fun d hd => h d (mem_of_mem_filter hd)

end Runs

/-- **Result callbacks match terminal outcomes.** In a run that keeps both callback URLs of the
subscription set, whose receipts and delivery ids are pairwise different, and in which no pull finds a
waiting delivery of the subscription past its retention, every generation of every stored delivery has
one row with its outcome if it ended, and none if it did not. -/
theorem callbacks_match_results (D : Digests) (ops : List QueueOp) (s : String)
    (hreceipts : DistinctReceipts D ops) (hids : (deliveryIds D ops).Nodup)
    (hurls : ∀ t ∈ (queue D).transitions {} ops, CallbacksSet s t.pre)
    (hkeeps : ∀ t ∈ (queue D).transitions {} ops, keepsRetention s t.pre t.input = true) :
    ∀ d ∈ (reach D ops).deliveries, d.subscriptionId = s → ∀ g, 1 ≤ g →
      resultsOf (reach D ops).callbacks d.id g = (generationResult d g).toList := by
  induction ops using reverseRecOn with
  | nil => exact fun d hd => by cases hd
  | append_singleton ops op ih =>
    simp only [Mealy.transitions_concat, mem_append, mem_singleton] at hurls hkeeps
    rw [deliveryIds_concat, nodup_append] at hids
    have hreceipts' := hreceipts.of_append
    have hreported := ih hreceipts' hids.1 (fun t ht => hurls t (.inl ht)) fun t ht => hkeeps t (.inl ht)
    rw [reach_concat]
    refine exec_reported (reach_ids_nodup D ops) (reach_heldOnce hreceipts') hreported
      (hurls _ (.inr rfl)) (hkeeps _ (.inr rfl)) fun d hd hnew c hc heq => ?_
    -- the id of a new delivery was not used before, for a delivery or a callback
    have hinserted : d.id ∈ insertedIds ⟨reach D ops, op, (queue D).out (reach D ops) op,
        (queue D).next (reach D ops) op⟩ :=
      mem_filter.mpr ⟨mem_map_of_mem hd, by simpa using hnew⟩
    exact hids.2.2 d.id (heq ▸ (reach_known D ops).callbacks c hc) d.id hinserted rfl

/-! ## Two runs -/

def reportedSubscription : QueueSubscription :=
  { sampleSubscription with
    retentionSeconds := 60
    successCallbackURL := some "https://app.example/done"
    failureCallbackURL := some "https://app.example/failed" }

/-- The delivery stays past its retention before the first pull. -/
def unreportedRun : List QueueOp :=
  [.createSubscription reportedSubscription, .publish (samplePublication "evt_1" 0),
    samplePull (61 * second) ["qrc_1"]]

/-- It is dead-lettered, with both URLs set, and no callback is written. -/
theorem retention_unreported :
    (∀ t ∈ (queue sampleDigests).transitions {} unreportedRun, CallbacksSet "qsub_1" t.pre) ∧
    (∃ d ∈ (reach sampleDigests unreportedRun).deliveries, d.subscriptionId = "qsub_1" ∧
      d.generation = 1 ∧ d.status = .deadLetter) ∧
    (reach sampleDigests unreportedRun).callbacks = [] :=
  ⟨by decide, by decide, by decide⟩

/-- A delivery that is dead-lettered by its consumer, replayed, and acknowledged. -/
def reportedRun : List QueueOp :=
  [.createSubscription reportedSubscription, .publish (samplePublication "evt_1" 0),
    samplePull second ["qrc_1"], sampleSettle "qrc_1" .deadLetter (2 * second),
    .replay "app_1" "qsub_1" ["qdl_e334738e77c1801e09b19d74af8d6104"] (3 * second),
    samplePull (4 * second) ["qrc_2"], sampleSettle "qrc_2" .ack (5 * second)]

/-- Its first generation is reported as a failure and its second as a success. -/
theorem callbacks_match_results_replayed :
    ∃ d ∈ (reach sampleDigests reportedRun).deliveries, d.status = .acked ∧ d.generation = 2 ∧
      resultsOf (reach sampleDigests reportedRun).callbacks d.id 1 = [.failure] ∧
      resultsOf (reach sampleDigests reportedRun).callbacks d.id 2 = [.success] := by
  have hstored : ∃ d ∈ (reach sampleDigests reportedRun).deliveries, d.subscriptionId = "qsub_1" ∧
      d.status = .acked ∧ d.generation = 2 ∧ generationResult d 1 = some .failure ∧
      generationResult d 2 = some .success := by
    decide
  obtain ⟨d, hd, hs, hstatus, hgen, hfirst, hsecond⟩ := hstored
  have hmatch := callbacks_match_results sampleDigests reportedRun "qsub_1"
    ⟨by decide, by decide⟩ (by decide) (by decide) (by decide) d hd hs
  refine ⟨d, hd, hstatus, hgen, ?_, ?_⟩
  · rw [hmatch 1 (by omega), hfirst]
    rfl
  · rw [hmatch 2 (by omega), hsecond]
    rfl

end RelayHub.Queue
