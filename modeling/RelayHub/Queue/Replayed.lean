import RelayHub.Queue.InPull
import RelayHub.Queue.Limits

/-! # RelayHub queue — pulling what was replayed

A replay makes a dead-lettered delivery available at once, in a new generation and with all its
attempts, but leaves `expires_at` as it was. The next pull first dead-letters what is past its
retention, so what a replay is worth depends on the time left: with room in the batch, a pull at the
time of the replay leases the delivery exactly when it has not expired (`replayed_leased_iff`). -/

namespace RelayHub.Queue

open List Table

/-! ## A pull with room leases all it can -/

variable {db : QueueDb} {d : DeliveryRow} {gaps : Nat → List DeadLetterOp}

theorem Inv.lease_not_taken (h : Inv db) (hd : d ∈ db.deliveries) (terms : LeaseTerms) :
    attemptTaken db.attempts (leasedAttempt terms d) = false := by
  rw [attemptTaken, any_eq_false]
  intro a ha hkey
  have hkey : a.key = (leasedAttempt terms d).key := of_decide_eq_true hkey
  simp only [AttemptRow.key, leasedAttempt, Prod.mk.injEq] at hkey
  obtain ⟨hid, hgen, hattempt, hout⟩ := hkey
  have hin : a.attempt ∈ leaseNumbers (deliveryLog db.attempts d.id) d.generation := by
    refine mem_map_of_mem (mem_filter.mpr ⟨?_, by simp [AttemptRow.leasedIn, hgen, hout]⟩)
    exact mem_filter.mpr ⟨ha, by simp [hid]⟩
  rw [(h.log d hd).leased, mem_range'_1] at hin
  omega

/-- **The loop succeeds** when there is a receipt for each delivery, and returns each of them. -/
theorem leaseSelected_ok (D : Digests) (gaps : Nat → List DeadLetterOp) (locked : List String) (terms : LeaseTerms)
    {k : Nat} {selected : List (DeliveryRow × EventRow)} {receipts : List String} (hinv : Inv db)
    (hwait : Waiting selected db) (hreceipts : selected.length ≤ receipts.length) :
    ∃ leased db', leaseSelected D gaps locked terms k selected receipts db = .ok (leased, db') ∧
      leased.map (·.id) = selected.map (·.1.id) := by
  induction selected generalizing k receipts db with
  | nil => exact ⟨[], db, rfl, rfl⟩
  | cons x rest ih =>
    obtain ⟨item, e⟩ := x
    cases receipts with
    | nil => exact absurd hreceipts (by simp)
    | cons receipt =>
      have hgap := hwait.interleave locked (gaps k)
      have hinv' := (interleave_effects (D := D) locked (gaps k) db).inv hinv
      obtain ⟨hitem, havailable⟩ := hgap.stored (item, e) mem_cons_self
      have hnew := hinv'.lease_not_taken hitem terms
      have hlease := Effect.lease (D := D) terms receipt item hitem havailable
      obtain ⟨leased, db', hrest, hids⟩ := ih (k := k + 1) (hlease.inv hinv')
        (hgap.lease D terms receipt) (Nat.le_of_succ_le_succ hreceipts)
      refine ⟨leasedDelivery terms receipt item e :: leased, db', ?_, ?_⟩
      · have hturn : leaseDelivery D terms receipt item (interleave locked (gaps k) db)
            = .ok (leasedDb D terms receipt item (interleave locked (gaps k) db)) := by
          rw [leaseDelivery]
          simpa using hnew
        simp only [leaseSelected, hturn, hrest]
      · rw [map_cons, hids]
        rfl

/-- The join with `events` finds the event of each delivery. -/
theorem Inv.find_event (h : Inv db) (hd : d ∈ db.deliveries) :
    ∃ e, db.events.find? (fun e => e.id = d.eventId) = some e := by
  obtain ⟨e, he, hid⟩ := h.event d hd
  rw [← Option.isSome_iff_exists, find?_isSome]
  exact ⟨e, he, by simp [hid]⟩

/-- The available deliveries of a subscription. -/
def waitingCount (db : QueueDb) (s : String) : Nat :=
  db.deliveries.countP fun d => d.subscriptionId = s && d.isAvailable

/-- With room for all that is available, every delivery that may be pulled is selected. -/
theorem mem_selectDeliveries_of_room {sub : QueueSubscription} {now : Int} {limit : Nat} (hinv : Inv db)
    (hroom : waitingCount db sub.id ≤ limit) (hd : d ∈ db.deliveries) (hpull : pullable sub now db d = true) :
    ∃ e, (d, e) ∈ selectDeliveries sub now limit db := by
  obtain ⟨e, he⟩ := hinv.find_event hd
  refine ⟨e, ?_⟩
  unfold selectDeliveries
  set due := (db.deliveries.filter (pullable sub now db)).filterMap fun d =>
    (db.events.find? fun e => e.id = d.eventId).map fun e => (d, e)
  have hall : (due.insertionSort fun a b => pullOrder now a.1 b.1 = true).length ≤ limit := by
    rw [length_insertionSort]
    refine le_trans (length_filterMap_le _ _) (le_trans ?_ hroom)
    rw [← countP_eq_length_filter]
    refine countP_mono_left fun x _ hx => ?_
    simp only [pullable, Bool.and_eq_true] at hx ⊢
    exact hx.1.1.1
  rw [take_of_length_le hall, (perm_insertionSort _ _).mem_iff]
  exact mem_filterMap.mpr ⟨d, mem_filter.mpr ⟨hd, hpull⟩, by rw [he]; rfl⟩

/-! ## The stages of a pull -/

/-- The tables when the pull counts what is in flight. -/
def countedDb (gaps : Nat → List DeadLetterOp) (sub : QueueSubscription) (now : Int) (db : QueueDb) :
    QueueDb := (pullPrepare gaps sub now db).1

/-- The tables when it counts the leases of the last second. -/
def ratedDb (gaps : Nat → List DeadLetterOp) (sub : QueueSubscription) (now : Int) (db : QueueDb) : QueueDb :=
  interleave (pullPrepare gaps sub now db).2 (gaps 3) (countedDb gaps sub now db)

/-- The tables when it selects. -/
def selectingDb (gaps : Nat → List DeadLetterOp) (sub : QueueSubscription) (now : Int) (db : QueueDb) : QueueDb :=
  interleave (pullPrepare gaps sub now db).2 (gaps 4) (ratedDb gaps sub now db)

theorem selectingDb_inv {sub : SubscriptionRow} (gaps : Nat → List DeadLetterOp) (now : Int) (hinv : Inv db)
    (hsub : sub ∈ db.subscriptions) : Inv (selectingDb gaps sub.toQueueSubscription now db) := by
  -- the invariant does not depend on the digests
  let D : Digests := ⟨id, id, fun _ _ => ""⟩
  have hprep := pullPrepare_effects (D := D) gaps now hsub
  exact ((hprep.trans_nil (interleave_effects _ (gaps 3) _)).trans_nil (interleave_effects _ (gaps 4) _)).inv hinv

/-- The batch, in-flight and rate capacities of the pull exceed the number of available
deliveries. -/
structure PullRoom (gaps : Nat → List DeadLetterOp) (sub : QueueSubscription)
    (request : QueuePullRequest) (db : QueueDb) : Prop where
  batch : (waitingCount (selectingDb gaps sub request.now db) sub.id : Int)
    < min request.limit sub.maxBatchSize
  inFlight : (waitingCount (selectingDb gaps sub request.now db) sub.id : Int)
    < sub.maxInFlight - inFlightCount (countedDb gaps sub request.now db) sub.id
  rate : ∀ rate, sub.maxDispatchRate = some rate →
    (waitingCount (selectingDb gaps sub request.now db) sub.id : Int)
      < rate - recentlyDispatched (ratedDb gaps sub request.now db) sub.id request.now

section Stages

variable {sub : QueueSubscription} {request : QueuePullRequest} {db : QueueDb} {now : Int} {d : DeliveryRow}

theorem Traces.selecting (hnd : db.Keyed) :
    Traces db (pullPrepare gaps sub now db).2 [] (selectingDb gaps sub now db) := by
  have hprepared : Traces db (pullPrepare gaps sub now db).2 [] (countedDb gaps sub now db) :=
    (pullPrepare_rule (J := fun _ => True) hnd trivial (fun _ _ _ _ => trivial) (fun _ => trivial)
      (fun _ => trivial) rfl).1
  have hrated : Traces db (pullPrepare gaps sub now db).2 [] (ratedDb gaps sub now db) :=
    (interleave_rule (J := fun _ => True) (fun _ _ _ => trivial) hprepared trivial).1
  exact (interleave_rule (J := fun _ => True) (fun _ _ _ => trivial) hrated trivial).1

theorem PullRoom.limit (h : PullRoom gaps sub request db) :
    ∃ limit, pullLimit sub request (countedDb gaps sub request.now db)
        (ratedDb gaps sub request.now db) = some limit ∧ 0 ≤ limit ∧ limit ≤ request.limit ∧
      waitingCount (selectingDb gaps sub request.now db) sub.id ≤ limit.toNat := by
  have hbatch := h.batch
  have hflight := h.inFlight
  unfold pullLimit
  rw [if_neg (by omega)]
  cases hrate : sub.maxDispatchRate with
  | none => exact ⟨_, rfl, by omega, by omega, by omega⟩
  | some rate =>
    have hleft := h.rate rate hrate
    dsimp only
    rw [if_neg (by omega)]
    exact ⟨_, rfl, by omega, by omega, by omega⟩

theorem DeadLetterOp.mem_apply_of_locked {locked : List String} (op : DeadLetterOp) (hlocked : d.id ∈ locked)
    (hd : d ∈ db.deliveries) : d ∈ (op.apply locked db).deliveries :=
  op.mem_apply hd fun _ _ _ => by simp [deadLetterTarget, hlocked]

theorem mem_interleave_of_locked {locked : List String} (ops : List DeadLetterOp) (hlocked : d.id ∈ locked)
    (hd : d ∈ db.deliveries) : d ∈ (interleave locked ops db).deliveries := by
  induction ops generalizing db with
  | nil => exact hd
  | cons op ops ih => exact ih (op.mem_apply_of_locked hlocked hd)

variable (hd : d ∈ db.deliveries) (havailable : d.status = .available) (gaps)

include hd havailable

/-- An available delivery reaches the retention statement as it is. -/
theorem available_before_expire (sub : QueueSubscription) (now : Int) (locked : List String) :
    d ∈ (interleave locked (gaps 1) (insertFailureCallbacks sub now
      (interleave locked (gaps 0) (reclaimExpired sub now db)))).deliveries := by
  refine mem_interleave_of_available (gaps 1) ?_ havailable
  rw [insertFailureCallbacks_deliveries]
  refine mem_interleave_of_available (gaps 0) ?_ havailable
  refine mem_updateWhere.mpr ⟨d, hd, if_neg ?_⟩
  -- the reclaim statement touches only what is in flight
  intro hreclaim
  cases (isInFlight_of_available havailable).symm.trans (reclaimable_inFlight hreclaim)

theorem available_selecting (sub : QueueSubscription) (hleft : now < d.expiresAt) :
    d ∈ (selectingDb gaps sub now db).deliveries := by
  refine mem_interleave_of_available (gaps 4) (mem_interleave_of_available (gaps 3)
    (mem_interleave_of_available (gaps 2) ?_ havailable) havailable) havailable
  refine mem_updateWhere.mpr ⟨d, available_before_expire gaps hd havailable sub now _, if_neg ?_⟩
  simp [retentionExpired, not_le.mpr hleft]

/-- A delivery past its retention is dead-lettered before the selection. -/
theorem expired_selecting (hsub : d.subscriptionId = sub.id) (hexpired : d.expiresAt ≤ now) :
    expireRow now d ∈ (selectingDb gaps sub now db).deliveries ∧ d.id ∈ (pullPrepare gaps sub now db).2 := by
  have hbefore := available_before_expire gaps hd havailable sub now (idsWhere (reclaimable sub.id now) db)
  have hretention : retentionExpired sub.id now d = true := by
    simp [retentionExpired, hsub, isAvailable_iff.mpr havailable, hexpired]
  have hwritten : d.id ∈ (pullPrepare gaps sub now db).2 :=
    mem_append_right _ (mem_map_of_mem (mem_filter.mpr ⟨hbefore, hretention⟩))
  refine ⟨mem_interleave_of_locked (gaps 4) hwritten (mem_interleave_of_locked (gaps 3) hwritten
    (mem_interleave_of_locked (gaps 2) hwritten ?_)), hwritten⟩
  exact mem_updateWhere.mpr ⟨d, hbefore, if_pos hretention⟩

end Stages

/-! ## The loop, row by row -/

section Loop

variable {D : Digests} {terms : LeaseTerms} {receipts : List String} {selected : List (DeliveryRow × EventRow)}
  {db db' : QueueDb} {leased : List QueueDelivery}

theorem leased_inFlight {locked : List String} {k : Nat} (hwait : Waiting selected db)
    (h : leaseSelected D gaps locked terms k selected receipts db = .ok (leased, db')) :
    ∀ x ∈ leased, ∃ d ∈ db'.deliveries, d.id = x.id ∧ d.isInFlight = true := by
  refine (leaseSelected_induction (I := fun _ rest acc db => Waiting rest db ∧
    ∀ x ∈ acc, ∃ d ∈ db.deliveries, d.id = x.id ∧ d.isInFlight = true) ?_ [] h
    ⟨hwait, by simp⟩).2
  rintro k item e rest receipt acc db ⟨hwait, hacc⟩
  have hgap := hwait.interleave locked (gaps k)
  refine ⟨hgap.lease D terms receipt, fun x hx => ?_⟩
  rcases mem_append.mp hx with hx | hx
  · obtain ⟨d, hd, hid, hflight⟩ := hacc x hx
    have hlive : d.status ≠ .deadLetter := by
      obtain ⟨l, hl⟩ := isInFlight_iff.mp hflight
      rw [hl]
      simp
    have hd' : d ∈ (interleave locked (gaps k) db).deliveries :=
      mem_interleave_of_live (gaps k) hd hlive
    refine ⟨_, mem_updateWhere_of_mem _ hd', ?_, ?_⟩
    · exact (leaseRow_same terms _ item d).ite.id.trans hid
    · split
      · rfl
      · exact hflight
  · rw [mem_singleton.mp hx]
    have hitem : item ∈ (interleave locked (gaps k) db).deliveries :=
      (hgap.stored (item, e) mem_cons_self).1
    exact ⟨_, mem_updateWhere.mpr ⟨item, hitem, if_pos (by simp)⟩, rfl, rfl⟩

theorem written_outlasts {db₀ : QueueDb} {written : List String}
    (hd : d ∈ db.deliveries) (hdead : d.status = .deadLetter) (hlocked : d.id ∈ written)
    (ht : Traces db₀ written (selected.map Prod.fst) db) (hwait : Waiting selected db)
    (h : leaseSelected D gaps written terms 5 selected receipts db = .ok (leased, db')) :
    d ∈ db'.deliveries := by
  refine leaseSelected_rule (J := fun _ _ db => d ∈ db.deliveries) ?_ ?_ ht hwait h hd
  · intro k op rest acc db _ _ _ _ _ hd
    exact op.mem_apply_of_locked hlocked hd
  · intro item e rest receipt acc db ht hwait _ hd
    obtain ⟨hitem, havailable⟩ := hwait.stored (item, e) mem_cons_self
    refine mem_updateWhere.mpr ⟨d, hd, if_neg ?_⟩
    -- ids are unique, and what is leased was available
    intro hid
    have hsame : d = item := eq_of_key_eq ht.ids hd hitem (of_decide_eq_true hid)
    rw [hsame, havailable] at hdead
    cases hdead

end Loop

/-- A pull on a ready subscription with room and a receipt for each delivery: it leases what it
selects, and what it dead-lettered before stays so. -/
theorem pull_with_room {D : Digests} {request : QueuePullRequest} {sub : SubscriptionRow} (hinv : Inv db)
    (hsub : db.findSubscription request.appId request.subscriptionId = some sub) (henabled : sub.enabled = true)
    (hpaused : sub.pausedAt = none) (hdraining : sub.drainingAt = none)
    (hreceipts : request.limit ≤ request.receipts.length) (hroom : PullRoom gaps sub.toQueueSubscription request db) :
    ∃ limit leased db', waitingCount (selectingDb gaps sub.toQueueSubscription request.now db) sub.id ≤ limit ∧
      Inv (selectingDb gaps sub.toQueueSubscription request.now db) ∧
      pullQueueDeliveries D gaps db request = .ok (leased, db') ∧
      leased.map (·.id) = (selectDeliveries sub.toQueueSubscription request.now limit
        (selectingDb gaps sub.toQueueSubscription request.now db)).map (·.1.id) ∧
      (∀ x ∈ leased, ∃ d ∈ db'.deliveries, d.id = x.id ∧ d.isInFlight = true) ∧
      ∀ d ∈ (selectingDb gaps sub.toQueueSubscription request.now db).deliveries,
        d.status = .deadLetter → d.id ∈ (pullPrepare gaps sub.toQueueSubscription request.now db).2 →
        d ∈ db'.deliveries := by
  obtain ⟨limit, hlimit, hpos, hle, hwaiting⟩ := hroom.limit
  set db₃ := selectingDb gaps sub.toQueueSubscription request.now db
  have hinv₃ : Inv db₃ := selectingDb_inv gaps request.now hinv (findSubscription_some hsub).1
  have hwait : Waiting (selectDeliveries sub.toQueueSubscription request.now limit.toNat db₃) db₃ :=
    .select hinv₃.deliveryIds
  have hlength := selectDeliveries_length_le sub.toQueueSubscription request.now limit.toNat db₃
  obtain ⟨leased, db', hlease, hids⟩ := leaseSelected_ok D gaps
    (pullPrepare gaps sub.toQueueSubscription request.now db).2
    (leaseTerms sub.toQueueSubscription request) hinv₃ hwait
    (show _ ≤ request.receipts.length by omega)
  refine ⟨limit.toNat, leased, db', hwaiting, hinv₃, ?_, hids, leased_inFlight hwait hlease, ?_⟩
  · unfold ratedDb countedDb at hlimit
    simp only [pullQueueDeliveries, hsub, hdraining, henabled, hpaused, pullReady, hlimit]
    rw [if_neg (not_lt.mpr hpos)]
    exact hlease
  · intro d hd hdead hlocked
    exact written_outlasts hd hdead hlocked ((Traces.selecting hinv.deliveryIds).select rfl) hwait hlease

/-! ## Replay, then pull -/

theorem SameDelivery.blocked_eq {d' : DeliveryRow} (h : SameDelivery d d') (db : QueueDb) :
    blocked db d' = blocked db d := by
  have hprecedes : ∀ e : DeliveryRow, e.precedes d' = e.precedes d :=
    fun e => (SameDelivery.refl e).precedes h
  unfold blocked
  simp only [h.orderingKey, h.subscriptionId, hprecedes]

/-- **Replay, then pull.** Take a dead-lettered delivery that a replay at `t` counts, on an enabled
subscription that is neither paused nor draining, and a pull at `t` with room for everything
available, at a point where nothing unfinished of its key stands before the delivery. The pull leases
the delivery exactly when it has not expired, and otherwise dead-letters it again. -/
theorem replayed_leased_iff (D : Digests) (ops : List QueueOp) (appId subscriptionId : String)
    (ids : List String) (t : Int) (d : DeliveryRow) (sub : SubscriptionRow)
    (request : QueuePullRequest) (gaps : Nat → List DeadLetterOp)
    (hd : d ∈ (reach D ops).deliveries)
    (hcounted : deadLetterTarget (reach D ops) appId subscriptionId ids d = true)
    (hsub : (reach D ops).findSubscription appId subscriptionId = some sub)
    (henabled : sub.enabled = true) (hpaused : sub.pausedAt = none) (hdraining : sub.drainingAt = none)
    (hrequest : request.appId = appId ∧ request.subscriptionId = subscriptionId ∧ request.now = t)
    (hreceipts : request.limit ≤ request.receipts.length)
    (hroom : PullRoom gaps sub.toQueueSubscription request
      (reach D (ops ++ [.replay appId subscriptionId ids t])))
    (hfirst : sub.orderingMode = .key → blocked (selectingDb gaps sub.toQueueSubscription t
      (reach D (ops ++ [.replay appId subscriptionId ids t]))) d = false) :
    ∃ leased, (queue D).out (reach D (ops ++ [.replay appId subscriptionId ids t]))
        (.pull request gaps) = .pulled leased ∧
      ((∃ x ∈ leased, x.id = d.id) ↔ t < d.expiresAt) ∧
      ((∃ d' ∈ (reach D (ops ++ [.replay appId subscriptionId ids t, .pull request gaps])).deliveries,
        d'.id = d.id ∧ d'.status = .deadLetter) ↔ d.expiresAt ≤ t) := by
  set db₁ := reach D (ops ++ [.replay appId subscriptionId ids t]) with hdb₁
  have hreplay : db₁ = (replayQueueDeadLetters (reach D ops) appId subscriptionId ids t).2 := by
    rw [hdb₁, reach_concat]
    rfl
  obtain ⟨rfl, rfl, rfl⟩ := hrequest
  have hsub₁ : db₁.findSubscription request.appId request.subscriptionId = some sub := by
    rw [hreplay]
    exact hsub
  obtain ⟨limit, leased, db', hwaiting, hinv₃, hpull, hids, hflight, hdead⟩ :=
    pull_with_room (D := D) (reach_inv D _) hsub₁ henabled hpaused hdraining hreceipts hroom
  have hout : (queue D).out db₁ (.pull request gaps) = .pulled leased ∧
      reach D (ops ++ [.replay request.appId request.subscriptionId ids request.now,
        .pull request gaps]) = db' := by
    have hexec : (queue D).exec db₁ (.pull request gaps) = (.pulled leased, db') := by
      show commit .pulled db₁ (pullQueueDeliveries D gaps db₁ request) = _
      rw [hpull]
      rfl
    refine ⟨congrArg Prod.fst hexec, ?_⟩
    rw [append_cons, reach_concat, ← hdb₁]
    exact congrArg Prod.snd hexec
  have hnd' : db'.Keyed := hout.2 ▸ reach_ids_nodup D _
  have hsubId : d.subscriptionId = sub.id := by
    simp only [deadLetterTarget, Bool.and_eq_true, decide_eq_true_eq] at hcounted
    rw [hcounted.1.1.2, (findSubscription_some hsub).2.2]
  -- the row as the replay leaves it
  have hrow : replayRow request.now d ∈ db₁.deliveries := by
    rw [hreplay]
    exact mem_updateWhere.mpr ⟨d, hd, if_pos hcounted⟩
  have hleased : request.now < d.expiresAt → ∃ x ∈ leased, x.id = d.id := by
    intro hleft
    have hselecting := available_selecting gaps hrow rfl sub.toQueueSubscription hleft
    have hpullable : pullable sub.toQueueSubscription request.now
        (selectingDb gaps sub.toQueueSubscription request.now db₁) (replayRow request.now d) = true := by
      have hmode : sub.orderingMode = .none ∨ blocked (selectingDb gaps sub.toQueueSubscription
          request.now db₁) (replayRow request.now d) = false := by
        cases hm : sub.orderingMode with
        | none => exact .inl rfl
        | key =>
          rw [(replayRow_same request.now d).blocked_eq]
          exact .inr (hfirst hm)
      simp only [pullable, Bool.and_eq_true, decide_eq_true_eq, Bool.or_eq_true, Bool.not_eq_true']
      exact ⟨⟨⟨⟨hsubId, rfl⟩, le_refl _⟩, hleft⟩, hmode⟩
    obtain ⟨e, he⟩ := mem_selectDeliveries_of_room hinv₃ hwaiting hselecting hpullable
    have hin : d.id ∈ leased.map (·.id) := by
      rw [hids]
      exact mem_map_of_mem (f := (·.1.id)) he
    exact mem_map.mp hin
  have hexpired : d.expiresAt ≤ request.now → ∃ d' ∈ db'.deliveries, d'.id = d.id ∧ d'.status = .deadLetter := by
    intro hpast
    obtain ⟨hin, hwritten⟩ := expired_selecting gaps hrow rfl hsubId hpast
    exact ⟨_, hdead _ hin rfl hwritten, rfl, rfl⟩
  have hexclusive : (∃ x ∈ leased, x.id = d.id) →
      ¬ ∃ d' ∈ db'.deliveries, d'.id = d.id ∧ d'.status = .deadLetter := by
    rintro ⟨x, hx, hxid⟩ ⟨d', hd', hid', hstatus⟩
    obtain ⟨y, hy, hyid, hyflight⟩ := hflight x hx
    obtain rfl : y = d' := eq_of_key_eq hnd' hy hd' (hyid.trans (hxid.trans hid'.symm))
    obtain ⟨l, hl⟩ := isInFlight_iff.mp hyflight
    rw [hl] at hstatus
    cases hstatus
  refine ⟨leased, hout.1, ⟨fun hin => ?_, hleased⟩, ?_⟩
  · by_contra hnot
    exact hexclusive hin (hexpired (not_lt.mp hnot))
  · rw [hout.2]
    refine ⟨fun hin => ?_, hexpired⟩
    by_contra hnot
    exact hexclusive (hleased (not_le.mp hnot)) hin

/-! ## Two runs -/

/-- A delivery that is retained for a minute and dead-lettered by a pull after that. -/
def expiredRun : List QueueOp :=
  [.createSubscription { sampleSubscription with retentionSeconds := 60 },
    .publish (samplePublication "evt_1" 0), samplePull (61 * second) ["qrc_1"]]

def replayFirst (now : Int) : QueueOp :=
  .replay "app_1" "qsub_1" ["qdl_e334738e77c1801e09b19d74af8d6104"] now

/-- The replay counts the delivery, and the pull with room for more dead-letters it again. -/
theorem replayed_expired_again :
    (queue sampleDigests).out (reach sampleDigests expiredRun) (replayFirst (62 * second)) = .count 1 ∧
    waitingCount (reach sampleDigests (expiredRun ++ [replayFirst (62 * second)])) "qsub_1" = 1 ∧
    (queue sampleDigests).out (reach sampleDigests (expiredRun ++ [replayFirst (62 * second)]))
      (samplePull (62 * second) ["qrc_1", "qrc_2"]) = .pulled [] ∧
    ∀ d ∈ (reach sampleDigests (expiredRun ++ [replayFirst (62 * second),
      samplePull (62 * second) ["qrc_1", "qrc_2"]])).deliveries,
        d.status = .deadLetter ∧ d.lastReason = some "retention_expired" :=
  ⟨rfl, by decide, rfl, by decide⟩

/-- A delivery that its consumer dead-lettered. -/
def rejectedRun : List QueueOp :=
  [.createSubscription sampleSubscription, .publish (samplePublication "evt_1" 0),
    samplePull second ["qrc_1"], sampleSettle "qrc_1" .deadLetter (2 * second)]

def replayedPull : QueuePullRequest where
  appId := "app_1"
  subscriptionId := "qsub_1"
  limit := 2
  visibility := 0
  now := 3 * second
  receipts := ["qrc_2", "qrc_3"]

theorem replayed_leased_rejected : ∃ d ∈ (reach sampleDigests rejectedRun).deliveries, d.status = .deadLetter ∧
      ∃ leased, (queue sampleDigests).out (reach sampleDigests (rejectedRun ++
        [replayFirst (3 * second)])) (.pull replayedPull fun _ => []) = .pulled leased ∧
        ∃ x ∈ leased, x.id = d.id := by
  have hstored : ∃ d ∈ (reach sampleDigests rejectedRun).deliveries, deadLetterTarget
      (reach sampleDigests rejectedRun) "app_1" "qsub_1" ["qdl_e334738e77c1801e09b19d74af8d6104"] d
        = true ∧ 3 * second < d.expiresAt := by
    decide
  obtain ⟨d, hd, hcounted, hleft⟩ := hstored
  obtain ⟨leased, hout, hiff, -⟩ := replayed_leased_iff sampleDigests rejectedRun "app_1" "qsub_1" _
    (3 * second) d { sampleSubscription with check := by decide } replayedPull (fun _ => []) hd hcounted
    rfl rfl rfl rfl ⟨rfl, rfl, rfl⟩ (by decide)
    ⟨by decide, by decide, fun rate hrate => by cases hrate⟩ (fun hmode => by cases hmode)
  exact ⟨d, hd, deadLetterTarget_status hcounted, leased, hout, hiff.mpr hleft⟩

end RelayHub.Queue
