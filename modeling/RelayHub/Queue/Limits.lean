import RelayHub.Queue.History

/-! # RelayHub queue — the batch and in-flight limits

A pull counts the deliveries in flight under the lock of the subscription row and leases at most
`max_in_flight` minus that count. Only a lease raises the count, and only the leases of a pull follow
its count, so what is in flight after a pull that leased something is within the limit the pull read;
`in_flight_bounded` adds that no state exceeds the largest limit the subscription ever had. -/

namespace RelayHub.Queue

open List Table

/-! ## What changes the number in flight -/

variable {D : Digests} {db db' : QueueDb}

theorem inFlightCount_update_le {p : DeliveryRow → Bool} {f : DeliveryRow → DeliveryRow}
    (hd : db'.deliveries = updateWhere p f db.deliveries) (hsame : ∀ d, SameDelivery d (f d))
    (hflight : ∀ d ∈ db.deliveries, p d = true → (f d).isInFlight = true → d.isInFlight = true)
    (s : String) : inFlightCount db' s ≤ inFlightCount db s := by
  unfold inFlightCount
  rw [hd]
  refine countP_updateWhere_le fun d hmem hp hq => ?_
  rw [Bool.and_eq_true, (hsame d).subscriptionId] at hq
  rw [Bool.and_eq_true]
  exact ⟨hq.1, hflight d hmem hp hq.2⟩

theorem Effect.inFlightCount_le (h : Effect D db [] db') (s : String) : inFlightCount db' s ≤ inFlightCount db s := by
  cases h with
  | reclaim sub hsub now =>
    exact inFlightCount_update_le rfl (reclaimRow_same _ now) (fun d _ hp _ => reclaimable_inFlight hp) s
  | failureCallbacks =>
    rw [inFlightCount, insertFailureCallbacks_deliveries, inFlightCount]
  | expire sub now =>
    exact inFlightCount_update_le rfl (expireRow_same now) (fun d _ _ hf => by cases hf) s
  | settle sub hsub settlement next availableAt now d =>
    exact inFlightCount_update_le rfl (settleRow_same _ _ _ _ _) (fun d _ hp _ => receiptTarget_inFlight hp) s
  | extend =>
    exact inFlightCount_update_le rfl (extendRow_same _ _) (fun d _ hp _ => receiptTarget_inFlight hp) s
  | replay appId subscriptionId ids now =>
    exact inFlightCount_update_le rfl (replayRow_same now) (fun d _ _ hf => by cases hf) s
  | delete => exact filter_sublist.countP_le

theorem Effects.inFlightCount_le (h : Effects D db [] db') (s : String) : inFlightCount db' s ≤ inFlightCount db s := by
  refine h.induction (P := fun db₁ log => log = [] → inFlightCount db₁ s ≤ inFlightCount db s) []
    ?_ (fun _ => le_refl _) rfl
  intro db₁ gs db₂ log he hlog hnil
  obtain ⟨hlog', rfl⟩ := append_eq_nil_iff.mp hnil
  exact (he.inFlightCount_le s).trans (hlog hlog')

theorem Operation.inFlightCount_le (h : Operation D db [] db') (s : String) :
    inFlightCount db' s ≤ inFlightCount db s := by
  cases h with
  | control h => rw [inFlightCount, h.deliveries, inFlightCount]
  | effects h => exact h.inFlightCount_le s
  | enqueue rows h =>
    have hnew : rows.countP (fun d => d.subscriptionId = s && d.isInFlight) = 0 := by
      rw [countP_eq_zero]
      intro d hd
      simp [isInFlight_of_available (h.new d hd).status]
    rw [inFlightCount, h.deliveries, countP_append, inFlightCount]
    omega

theorem inFlightCount_lease (hnd : db.Keyed) {item : DeliveryRow}
    (hitem : item ∈ db.deliveries) (havailable : item.status = .available) (terms : LeaseTerms)
    (receipt : String) (s : String) :
    inFlightCount (leasedDb D terms receipt item db) s
      ≤ inFlightCount db s + if item.subscriptionId = s then 1 else 0 := by
  unfold inFlightCount leasedDb
  by_cases hs : item.subscriptionId = s
  · rw [if_pos hs]
    refine le_of_eq (countP_updateWhere_key hnd hitem ?_ ?_)
    · simp [isInFlight_of_available havailable]
    · simp [leaseRow, DeliveryRow.isInFlight, DeliveryRow.lease?, hs]
  · rw [if_neg hs, Nat.add_zero]
    refine countP_updateWhere_le fun d hd hid hq => ?_
    obtain rfl : d = item := eq_of_key_eq hnd hd hitem (of_decide_eq_true hid)
    rw [Bool.and_eq_true, (leaseRow_same terms _ d d).subscriptionId] at hq
    exact absurd (of_decide_eq_true hq.1) hs

/-! ## A pull -/

section Pull

variable {gaps : Nat → List DeadLetterOp} {locked : List String} {terms : LeaseTerms} {k : Nat}
  {selected : List (DeliveryRow × EventRow)} {receipts : List String} {leased : List QueueDelivery}

theorem leaseSelected_length (h : leaseSelected D gaps locked terms k selected receipts db = .ok (leased, db')) :
    leased.length = selected.length := by
  have hinv := leaseSelected_induction
    (I := fun _ rest acc _ => acc.length + rest.length = selected.length) ?_ [] h (by simp)
  · simpa using hinv
  · intro k item e rest receipt acc db₁ hlen
    rw [length_append]
    simp only [length_cons, length_nil] at hlen ⊢
    omega

/-- The loop raises the count of its subscription by at most what it leases, and no other count. -/
theorem leaseSelected_inFlightCount (hnd : db.Keyed)
    (hwait : Waiting selected db) {t : String} (hsub : ∀ x ∈ selected, x.1.subscriptionId = t)
    (h : leaseSelected D gaps locked terms k selected receipts db = .ok (leased, db')) (s : String) :
    inFlightCount db' s ≤ inFlightCount db s + if t = s then leased.length else 0 := by
  refine (leaseSelected_induction (I := fun _ rest acc db₁ => db₁.Keyed ∧
    Waiting rest db₁ ∧ (∀ x ∈ rest, x.1.subscriptionId = t) ∧
    inFlightCount db₁ s ≤ inFlightCount db s + if t = s then acc.length else 0) ?_ [] h
    ⟨hnd, hwait, hsub, by simp⟩).2.2.2
  rintro k item e rest receipt acc db₁ ⟨hnd, hwait, hsub, hcount⟩
  have heffects := interleave_effects (D := D) locked (gaps k) db₁
  have hgap := hwait.interleave locked (gaps k)
  have hnd' := heffects.ids_nodup hnd
  obtain ⟨hitem, havail⟩ := hgap.stored (item, e) mem_cons_self
  refine ⟨(Effect.lease terms receipt item hitem havail).ids_nodup hnd',
    hgap.lease D terms receipt, fun x hx => hsub x (mem_cons_of_mem _ hx), ?_⟩
  have hlease := @inFlightCount_lease D _ hnd' item hitem havail terms receipt s
  have hgapCount := heffects.inFlightCount_le s
  have hitemSub : item.subscriptionId = t := hsub (item, e) mem_cons_self
  rw [hitemSub] at hlease
  rw [length_append, length_singleton]
  by_cases ht : t = s
  · rw [if_pos ht] at hcount hlease ⊢
    omega
  · rw [if_neg ht] at hcount hlease ⊢
    omega

theorem selectDeliveries_length_le (sub : QueueSubscription) (now : Int) (limit : Nat) (db : QueueDb) :
    (selectDeliveries sub now limit db).length ≤ limit :=
  length_take_le _ _

theorem pullLimit_le {sub : QueueSubscription} {request : QueuePullRequest} {limit : Int}
    (h : pullLimit sub request db db' = some limit) :
    limit ≤ min request.limit sub.maxBatchSize ∧ limit ≤ sub.maxInFlight - inFlightCount db sub.id ∧
    ∀ rate, sub.maxDispatchRate = some rate → limit ≤ rate - recentlyDispatched db' sub.id request.now := by
  unfold pullLimit at h
  dsimp only at h
  split at h
  · cases h
  split at h
  next hrate =>
    cases h
    exact ⟨min_le_left _ _, min_le_right _ _, fun rate heq => by rw [hrate] at heq; cases heq⟩
  next hrate =>
  split at h
  · cases h
  cases h
  refine ⟨(min_le_left _ _).trans (min_le_left _ _), (min_le_left _ _).trans (min_le_right _ _), ?_⟩
  intro rate' heq
  rw [hrate] at heq
  cases heq
  exact min_le_right _ _

end Pull

/-- **One pull.** It leaves every count as it is or lower, except that of its own subscription, which
stays within the limit it read; what it leases is within the batch limits. -/
theorem PullCase.inFlight {gaps : Nat → List DeadLetterOp} {request : QueuePullRequest}
    {leased : List QueueDelivery} (hcase : PullCase D gaps db request leased db')
    (hnd : db.Keyed) :
    (leased = [] ∧ ∀ s, inFlightCount db' s ≤ inFlightCount db s) ∨
    ∃ sub, db.findSubscription request.appId request.subscriptionId = some sub ∧
      (leased.length : Int) ≤ min request.limit sub.maxBatchSize ∧
      (inFlightCount db' sub.id : Int) ≤ sub.maxInFlight ∧
      ∀ s, s ≠ sub.id → inFlightCount db' s ≤ inFlightCount db s := by
  have heffects := hcase.effects hnd
  cases hcase with
  | draining | full => exact .inl ⟨rfl, fun s => heffects.inFlightCount_le s⟩
  | leasing sub hsub db₁ db₂ db₃ db' written hprepare hgap limit hpos hlimit hgap' leased hlease =>
    have hprep := pullPrepare_effects (D := D) gaps request.now (findSubscription_some hsub).1
    rw [hprepare] at hprep
    have hgaps := (interleave_effects (D := D) written (gaps 3) db₁).trans_nil (interleave_effects written (gaps 4) _)
    rw [← hgap, ← hgap'] at hgaps
    have hnd₃ := hgaps.ids_nodup (hprep.ids_nodup hnd)
    obtain ⟨hbatch, hcapacity, -⟩ := pullLimit_le hlimit
    have hlength : leased.length ≤ limit.toNat :=
      (leaseSelected_length hlease).trans_le (selectDeliveries_length_le _ _ _ _)
    have hcount := leaseSelected_inFlightCount hnd₃ (.select hnd₃) (t := sub.id) (fun x hx => by
      have hpull := (mem_selectDeliveries hx).2
      simp only [pullable, Bool.and_eq_true, decide_eq_true_eq] at hpull
      exact hpull.1.1.1.1) hlease
    refine .inr ⟨sub, hsub, by omega, ?_, fun s hs => ?_⟩
    · have hsame := hgaps.inFlightCount_le sub.id
      have hown := hcount sub.id
      rw [if_pos rfl] at hown
      omega
    · have hother := hcount s
      rw [if_neg (Ne.symm hs), Nat.add_zero] at hother
      exact (hother.trans (hgaps.inFlightCount_le s)).trans (hprep.inFlightCount_le s)

/-! ## Whole runs -/

/-- The values of `max_in_flight` that were in force on a subscription, state by state. -/
def inFlightLimits (D : Digests) (ops : List QueueOp) (s : String) : List Int :=
  ((queue D).transitions {} ops).flatMap fun t =>
    (t.pre.subscriptions.filter fun x => x.id = s).map fun x => x.maxInFlight

/-- The largest of them. -/
def largestMaxInFlight (D : Digests) (ops : List QueueOp) (s : String) : Int :=
  largest (inFlightLimits D ops s)

theorem inFlightCount_le_largest (D : Digests) (ops : List QueueOp) (s : String) :
    (inFlightCount (reach D ops) s : Int) ≤ largestMaxInFlight D ops s := by
  induction ops using reverseRecOn with
  | nil => exact le_refl _
  | append_singleton ops op =>
    have hmono : largestMaxInFlight D ops s ≤ largestMaxInFlight D (ops ++ [op]) s := by
      unfold largestMaxInFlight inFlightLimits
      rw [Mealy.transitions_concat, flatMap_append]
      exact largest_append_right _ _
    have hkept : inFlightCount (reach D (ops ++ [op])) s ≤ inFlightCount (reach D ops) s →
        (inFlightCount (reach D (ops ++ [op])) s : Int) ≤ largestMaxInFlight D (ops ++ [op]) s := by
      intro hle
      omega
    have hop := reach_concat_operation D ops op
    rcases out_cases D (reach D ops) op with hnil | ⟨request, gaps, leased, rfl, hpull, -⟩
    · rw [hnil] at hop
      exact hkept (hop.inFlightCount_le s)
    · rw [← reach_concat] at hpull
      rcases hpull.inFlight (reach_ids_nodup D ops) with
        ⟨-, hle⟩ | ⟨sub, hsub, -, hlimit, hother⟩
      · exact hkept (hle s)
      · by_cases hs : s = sub.id
        · subst hs
          refine hlimit.trans (le_largest ?_)
          unfold inFlightLimits
          rw [Mealy.transitions_concat, flatMap_append]
          refine mem_append_right _ (mem_flatMap.mpr ⟨_, mem_singleton_self _, ?_⟩)
          refine mem_map.mpr ⟨sub, mem_filter.mpr ⟨?_, by simp⟩, rfl⟩
          exact (findSubscription_some hsub).1
        · exact hkept (hother s hs)

/-- **The in-flight bound.** After a pull that leased something, at most the `max_in_flight` it read
is in flight, and it leased at most the smaller of the requested limit and `max_batch_size`. In every
state, no more is in flight than the largest `max_in_flight` that was ever in force. -/
theorem in_flight_bounded (D : Digests) (ops : List QueueOp) :
    (∀ before request gaps after leased, ops = before ++ .pull request gaps :: after →
      (queue D).out (reach D before) (.pull request gaps) = .pulled leased → leased ≠ [] →
      ∃ sub, (reach D before).findSubscription request.appId request.subscriptionId = some sub ∧
        (inFlightCount (reach D (before ++ [.pull request gaps])) request.subscriptionId : Int)
          ≤ sub.maxInFlight ∧
        (leased.length : Int) ≤ min request.limit sub.maxBatchSize) ∧
    ∀ s, (inFlightCount (reach D ops) s : Int) ≤ largestMaxInFlight D ops s := by
  refine ⟨?_, inFlightCount_le_largest D ops⟩
  intro before request gaps after leased _ hout hne
  rcases out_cases D (reach D before) (.pull request gaps) with hnil | ⟨_, _, _, hop, hpull, hout'⟩
  · rw [hout] at hnil
    exact absurd (map_eq_nil_iff.mp hnil) hne
  · cases hop
    rw [hout] at hout'
    cases hout'
    rw [← reach_concat] at hpull
    rcases hpull.inFlight (reach_ids_nodup D before) with
      ⟨hnil, -⟩ | ⟨sub, hsub, hbatch, hlimit, -⟩
    · exact absurd hnil hne
    · refine ⟨sub, hsub, ?_, hbatch⟩
      rwa [← (findSubscription_some hsub).2.2]

/-- Two deliveries for a subscription with `max_in_flight` 1, and a pull for both. -/
def cappedRun : List QueueOp :=
  [.createSubscription { sampleSubscription with maxInFlight := 1 },
    .publish (samplePublication "evt_1" 0), .publish (samplePublication "evt_2" 0)]

theorem in_flight_bounded_capped :
    ∃ sub, (reach sampleDigests cappedRun).findSubscription "app_1" "qsub_1" = some sub ∧
      (inFlightCount (reach sampleDigests (cappedRun ++ [samplePull second ["qrc_1", "qrc_2"]]))
        "qsub_1" : Int) ≤ sub.maxInFlight ∧ (1 : Int) ≤ min 2 sub.maxBatchSize :=
  (in_flight_bounded sampleDigests (cappedRun ++ [samplePull second ["qrc_1", "qrc_2"]])).1 cappedRun
    _ _ [] _ rfl rfl (by decide)

end RelayHub.Queue
