import RelayHub.Queue.History

/-! # RelayHub queue — inside a pull

Replays and deletes may commit between the statements of a pull, so a property of whole pulls has to
be followed through their intermediate states. `Traces db₀ written selected db` says where the rows of
such a state come from: `db₀` is the state the pull started on, `written` are the ids of the rows its
reclaim and retention statements wrote, and `selected` are the deliveries it selected (none before
the selection). In particular a replay or a delete in a gap meets only rows that were dead-lettered
when the pull started (`Traces.target_start`).

`pullPrepare_rule` and `leaseSelected_rule` are the induction rules for the two halves of a pull, with
`Traces` at hand in every state. -/

namespace RelayHub.Queue

open List Table DeliveryRow

variable {d : DeliveryRow} {db₀ : QueueDb} {written : List String}

theorem isActive_of_isInFlight (h : d.isInFlight = true) : d.isActive = true := by
  simp [isActive, h]

theorem isActive_of_available (h : d.status = .available) : d.isActive = true := by
  simp [isActive, isAvailable_iff.mpr h]

theorem not_isActive_of_deadLetter (h : d.status = .deadLetter) : d.isActive = false := by
  simp [isActive, isAvailable, isInFlight, lease?, h]

/-- Where the rows of an intermediate state come from. -/
structure Traces (db₀ : QueueDb) (written : List String) (selected : List DeliveryRow) (db : QueueDb) : Prop where
  ids : (db.deliveries.map (·.id)).Nodup
  subscriptions : db.subscriptions = db₀.subscriptions
  /-- Each row goes back to a row of the start; what is in flight was so then or is selected, and what
  is dead-lettered was so then or was written by the pull. -/
  rows : ∀ d ∈ db.deliveries, ∃ d₀ ∈ db₀.deliveries, SameDelivery d₀ d ∧
    (d.isInFlight = true → d₀.isInFlight = true ∨ d.id ∈ selected.map (·.id)) ∧
    (d.status = .deadLetter → d.id ∉ written → d₀.status = .deadLetter)
  /-- A selected delivery is the one that was selected, and it is unfinished. -/
  chosen : ∀ d ∈ db.deliveries, d.id ∈ selected.map (·.id) →
    (∃ z ∈ selected, SameDelivery z d) ∧ d.isActive = true
  /-- New `leased` rows of the history belong to selected deliveries. -/
  leased : ∀ a ∈ db.attempts, a.outcome = .leased → a ∈ db₀.attempts ∨ a.deliveryId ∈ selected.map (·.id)

namespace Traces

variable {db db' : QueueDb} {selected : List DeliveryRow}

theorem start (hnd : db.Keyed) (written : List String) : Traces db written [] db :=
  ⟨hnd, rfl, fun d hd => ⟨d, hd, .refl d, .inl, fun hdead _ => hdead⟩, by simp, fun _ ha _ => .inl ha⟩

section

variable (h : Traces db₀ written selected db)

include h

/-- A statement that keeps identities, puts nothing in flight but what is selected, and dead-letters
nothing but what it records as written. -/
theorem step {written' : List String} (hw : written ⊆ written') (hs : db'.subscriptions = db.subscriptions)
    (hids : List.Sublist (db'.deliveries.map (·.id)) (db.deliveries.map (·.id)))
    (hrows : ∀ d' ∈ db'.deliveries, ∃ d ∈ db.deliveries, SameDelivery d d' ∧
      (d'.isInFlight = true → d.isInFlight = true ∨ d'.id ∈ selected.map (·.id)) ∧
      (d'.status = .deadLetter → d'.id ∉ written' → d.status = .deadLetter) ∧
      (d'.id ∈ selected.map (·.id) → d.isActive = true → d'.isActive = true))
    (hleased : ∀ a ∈ db'.attempts, a.outcome = .leased → a ∈ db.attempts ∨ a.deliveryId ∈ selected.map (·.id)) :
    Traces db₀ written' selected db' := by
  refine ⟨h.ids.sublist hids, hs.trans h.subscriptions, fun d' hd' => ?_, fun d' hd' hin => ?_, fun a ha hout => ?_⟩
  · obtain ⟨d, hd, hsame, hflight, hdead, -⟩ := hrows d' hd'
    obtain ⟨d₀, hd₀, hsame₀, hflight₀, hdead₀⟩ := h.rows d hd
    refine ⟨d₀, hd₀, hsame₀.trans hsame, fun hf => ?_, fun hdl hnw => ?_⟩
    · rcases hflight hf with hf | hf
      · rw [hsame.id]
        exact hflight₀ hf
      · exact .inr hf
    · exact hdead₀ (hdead hdl hnw) fun hin => hnw (hsame.id ▸ hw hin)
  · obtain ⟨d, hd, hsame, -, -, hactive⟩ := hrows d' hd'
    obtain ⟨⟨z, hz, hzsame⟩, hd_active⟩ := h.chosen d hd (hsame.id ▸ hin)
    exact ⟨⟨z, hz, hzsame.trans hsame⟩, hactive hin hd_active⟩
  · rcases hleased a ha hout with ha | hin
    · exact h.leased a ha hout
    · exact .inr hin

theorem of_update {written' : List String}
    (hw : written ⊆ written') (hs : db'.subscriptions = db.subscriptions) {p : DeliveryRow → Bool}
    {f : DeliveryRow → DeliveryRow} (hd : db'.deliveries = updateWhere p f db.deliveries)
    (hsame : ∀ d, SameDelivery d (f d))
    (hflight : ∀ d ∈ db.deliveries, p d = true → (f d).isInFlight = true →
      d.isInFlight = true ∨ d.id ∈ selected.map (·.id))
    (hdead : ∀ d ∈ db.deliveries, p d = true → (f d).status = .deadLetter → d.id ∈ written')
    (hactive : ∀ d ∈ db.deliveries, p d = true → d.id ∈ selected.map (·.id) → (f d).isActive = true)
    (hleased : ∀ a ∈ db'.attempts, a.outcome = .leased → a ∈ db.attempts ∨ a.deliveryId ∈ selected.map (·.id)) :
    Traces db₀ written' selected db' := by
  refine h.step hw hs ?_ (fun d' hd' => ?_) hleased
  · rw [hd, ids_updateWhere hsame]
  rw [hd] at hd'
  rcases mem_updateWhere_cases hd' with ⟨d, hmem, hp, rfl⟩ | ⟨hmem, -⟩
  · refine ⟨d, hmem, hsame d, ?_⟩
    rw [(hsame d).id]
    exact ⟨hflight d hmem hp, fun hdl hnw => absurd (hdead d hmem hp hdl) hnw, fun hin _ => hactive d hmem hp hin⟩
  · exact ⟨d', hmem, .refl d', .inl, fun hdl _ => hdl, fun _ => id⟩

/-! ## The statements -/

theorem failureCallbacks (sub : QueueSubscription) (now : Int) :
    Traces db₀ written selected (insertFailureCallbacks sub now db) := by
  refine ⟨?_, ?_, ?_, ?_, ?_⟩
  · rw [insertFailureCallbacks_deliveries]
    exact h.ids
  · rw [insertFailureCallbacks_subscriptions]
    exact h.subscriptions
  · rw [insertFailureCallbacks_deliveries]
    exact h.rows
  · rw [insertFailureCallbacks_deliveries]
    exact h.chosen
  · rw [insertFailureCallbacks_attempts]
    exact h.leased

theorem apply (op : DeadLetterOp) : Traces db₀ written selected (op.apply written db) := by
  cases op with
  | delete =>
    refine h.step (.refl _) rfl (filter_sublist.map _) (fun d hd => ?_) fun a ha _ => .inl (mem_of_mem_filter ha)
    exact ⟨d, mem_of_mem_filter hd, .refl d, .inl, fun hdead _ => hdead, fun _ => id⟩
  | replay appId subscriptionId ids now =>
    refine h.of_update (.refl _) rfl rfl (replayRow_same now) ?_ ?_ (fun d _ _ _ => rfl) fun a ha _ => .inl ha
    · intro d _ _ hflight
      cases hflight
    · intro d _ _ hdead
      cases hdead

theorem lease {item : DeliveryRow}
    (hitem : item.id ∈ selected.map (·.id)) (D : Digests) (terms : LeaseTerms) (receipt : String) :
    Traces db₀ written selected (leasedDb D terms receipt item db) := by
  refine h.of_update (.refl _) rfl rfl (leaseRow_same terms _ item) ?_ ?_
    (fun d _ _ _ => rfl) (forall_mem_concat (fun a ha _ => .inl ha) fun _ => .inr hitem)
  · intro d _ hid _
    exact .inr (of_decide_eq_true hid ▸ hitem)
  · intro d _ _ hdead
    cases hdead

/-- **What a gap can touch.** A row that a replay or a delete names was dead-lettered when the pull
started. -/
theorem target_start {appId subscriptionId : String} {ids : List String} (hd : d ∈ db.deliveries)
    (htarget : deadLetterTarget db appId subscriptionId (ids.filter (!written.contains ·)) d = true) :
    ∃ d₀ ∈ db₀.deliveries, SameDelivery d₀ d ∧ deadLetterTarget db₀ appId subscriptionId ids d₀ = true := by
  obtain ⟨d₀, hd₀, hsame, -, hdead₀⟩ := h.rows d hd
  have hdead : d.status = .deadLetter := deadLetterTarget_status htarget
  have hfind : db.findSubscription appId subscriptionId = db₀.findSubscription appId subscriptionId := by
    unfold QueueDb.findSubscription
    rw [h.subscriptions]
  refine ⟨d₀, hd₀, hsame, ?_⟩
  simp only [deadLetterTarget, Bool.and_eq_true, decide_eq_true_eq, contains_iff_mem,
    mem_filter, Bool.not_eq_true', ← Bool.not_eq_true] at htarget ⊢
  obtain ⟨⟨⟨hsome, hsub⟩, hid, hfree⟩, -⟩ := htarget
  exact ⟨⟨⟨hfind ▸ hsome, hsame.subscriptionId ▸ hsub⟩, hsame.id ▸ hid⟩, isDeadLetter_iff.mpr (hdead₀ hdead hfree)⟩

end

theorem reclaim (hnd : db.Keyed) (sub : QueueSubscription) (now : Int) :
    Traces db (idsWhere (reclaimable sub.id now) db) [] (reclaimExpired sub now db) := by
  refine (start hnd []).of_update (by simp) rfl rfl (reclaimRow_same sub now) ?_ ?_ (by simp) ?_
  · intro d _ _ hflight
    rw [reclaimRow_isInFlight] at hflight
    cases hflight
  · exact fun d hd hp _ => mem_map_of_mem (mem_filter.mpr ⟨hd, hp⟩)
  · intro a ha hout
    rcases mem_or_mem_of_mem_insertAllIgnore ha with ha | ha
    · exact .inl ha
    -- the statement writes closing rows only
    obtain ⟨d, -, rfl⟩ := mem_map.mp ha
    have hcloses := reclaimAttempt_closes now (reclaimRow sub now d)
    rw [hout] at hcloses
    cases hcloses

theorem expire (h : Traces db₀ written [] db) (sub : QueueSubscription) (now : Int) :
    Traces db₀ (written ++ idsWhere (retentionExpired sub.id now) db) [] (expireRetained sub now db) := by
  refine h.of_update (subset_append_left _ _) rfl rfl (expireRow_same now) ?_ ?_ (by simp) fun a ha _ => .inl ha
  · intro d _ _ hflight
    cases hflight
  · exact fun d hd hp _ =>
      mem_append_right _ (mem_map_of_mem (mem_filter.mpr ⟨hd, hp⟩))

theorem select (h : Traces db₀ written [] db) {sub : QueueSubscription} {now : Int} {limit : Nat}
    {chosen : List (DeliveryRow × EventRow)} (hchosen : chosen = selectDeliveries sub now limit db) :
    Traces db₀ written (chosen.map Prod.fst) db := by
  refine ⟨h.ids, h.subscriptions, fun d hd => ?_, fun d hd hin => ?_, fun a ha hout => ?_⟩
  · obtain ⟨d₀, hd₀, hsame, hflight, hdead⟩ := h.rows d hd
    refine ⟨d₀, hd₀, hsame, fun hf => ?_, hdead⟩
    rcases hflight hf with hf | hin
    · exact .inl hf
    · cases hin
  · obtain ⟨z, hz, hid⟩ := mem_map.mp hin
    obtain ⟨x, hx, rfl⟩ := mem_map.mp hz
    obtain ⟨hmem, hpull⟩ := mem_selectDeliveries (hchosen ▸ hx)
    -- ids are unique, so the row with a selected id is the selected row
    obtain rfl : x.1 = d := eq_of_key_eq h.ids hmem hd hid
    exact ⟨⟨x.1, hz, .refl x.1⟩, isActive_of_available (pullable_available hpull)⟩
  · rcases h.leased a ha hout with ha | hin
    · exact .inl ha
    · cases hin

end Traces

/-! ## The rules -/

section Rules

variable {gaps : Nat → List DeadLetterOp}

theorem interleave_rule {selected : List DeliveryRow} {J : QueueDb → Prop} {ops : List DeadLetterOp}
    (hop : ∀ {op db}, op ∈ ops → Traces db₀ written selected db → J db → J (op.apply written db)) {db : QueueDb}
    (ht : Traces db₀ written selected db) (h : J db) :
    Traces db₀ written selected (interleave written ops db) ∧ J (interleave written ops db) := by
  induction ops generalizing db with
  | nil => exact ⟨ht, h⟩
  | cons op ops ih =>
    exact ih (fun hmem => hop (mem_cons_of_mem _ hmem)) (ht.apply op) (hop mem_cons_self ht h)

/-- **The rule of the first half.** What the reclaim statement establishes and the callbacks, the
retention statement and the gaps keep holds when the pull counts. -/
theorem pullPrepare_rule {J : QueueDb → Prop} {sub : QueueSubscription} {now : Int} (hnd : db₀.Keyed)
    (hreclaim : J (reclaimExpired sub now db₀))
    (hgap : ∀ {k op written db}, k ≤ 2 → op ∈ gaps k → Traces db₀ written [] db → J db → J (op.apply written db))
    (hcallbacks : ∀ {db}, J db → J (insertFailureCallbacks sub now db))
    (hexpire : ∀ {db}, J db → J (expireRetained sub now db)) {db₁ : QueueDb}
    (hprepare : pullPrepare gaps sub now db₀ = (db₁, written)) : Traces db₀ written [] db₁ ∧ J db₁ := by
  obtain ⟨rfl, rfl⟩ := Prod.mk.inj hprepare
  obtain ⟨ht, h⟩ := interleave_rule (fun hmem => hgap (Nat.zero_le 2) hmem) (.reclaim hnd sub now) hreclaim
  obtain ⟨ht, h⟩ := interleave_rule (fun hmem => hgap (Nat.le_succ 1) hmem) (ht.failureCallbacks sub now) (hcallbacks h)
  exact interleave_rule (fun hmem => hgap (le_refl 2) hmem) (ht.expire sub now) (hexpire h)

/-- **The rule of the second half.** What the gaps and the leases keep, from the selection to the
deliveries returned so far, holds when the loop is done. -/
theorem leaseSelected_rule {D : Digests} {terms : LeaseTerms} {chosen : List (DeliveryRow × EventRow)}
    {J : List (DeliveryRow × EventRow) → List QueueDelivery → QueueDb → Prop}
    (hgap : ∀ {k op rest acc db}, 5 ≤ k → op ∈ gaps k → Traces db₀ written (chosen.map Prod.fst) db →
      Waiting rest db → rest ⊆ chosen → J rest acc db → J rest acc (op.apply written db))
    (hlease : ∀ {item e rest receipt acc db}, Traces db₀ written (chosen.map Prod.fst) db →
      Waiting ((item, e) :: rest) db → (item, e) ∈ chosen → J ((item, e) :: rest) acc db →
      J rest (acc ++ [leasedDelivery terms receipt item e]) (leasedDb D terms receipt item db))
    {db db' : QueueDb} {receipts : List String} {leased : List QueueDelivery}
    (ht : Traces db₀ written (chosen.map Prod.fst) db) (hwait : Waiting chosen db)
    (hloop : leaseSelected D gaps written terms 5 chosen receipts db = .ok (leased, db')) (h : J chosen [] db) :
    J [] leased db' := by
  refine (leaseSelected_induction (I := fun k rest acc db => 5 ≤ k ∧ rest ⊆ chosen ∧
    Traces db₀ written (chosen.map Prod.fst) db ∧ Waiting rest db ∧ J rest acc db) ?_ [] hloop
    ⟨le_refl 5, .refl _, ht, hwait, h⟩).2.2.2.2
  rintro k item e rest receipt acc db ⟨hk, hsub, ht, hwait, hJ⟩
  have hmem : (item, e) ∈ chosen := hsub mem_cons_self
  have hid : item.id ∈ (chosen.map Prod.fst).map (·.id) :=
    mem_map_of_mem (mem_map_of_mem hmem)
  obtain ⟨ht', hwait', hJ'⟩ := interleave_rule
    (J := fun db => Waiting ((item, e) :: rest) db ∧ J ((item, e) :: rest) acc db)
    (fun {op} {db} hop ht hw => ⟨hw.1.interleave written [op], hgap hk hop ht hw.1 hsub hw.2⟩) ht
    ⟨hwait, hJ⟩
  exact ⟨Nat.le_succ_of_le hk, fun x hx => hsub (mem_cons_of_mem _ hx),
    ht'.lease hid D terms receipt, hwait'.lease D terms receipt, hlease ht' hwait' hmem hJ'⟩

end Rules

end RelayHub.Queue
