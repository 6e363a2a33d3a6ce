import Mathlib.Algebra.Order.BigOperators.Group.List
import RelayHub.Queue.InPull
import RelayHub.Queue.Limits

/-! # RelayHub queue — the dispatch rate

A subscription with `max_dispatch_rate` leases at most that many deliveries in a second. The pull does
not keep a counter: it counts the `leased` rows of the last second in the history, joined with the
stored deliveries. The budget is right as long as those rows stay, and everything keeps them but one
operation: `DeleteQueueDeadLetters` takes the history of a delivery along.

`recentlyDispatched` therefore never falls behind the leases granted (`dispatched_le_recent`) in a run
that deletes no delivery leased within the second before a later pull (`KeepsWindow`), and in such a
run the rate holds in every window (`rate_bounded`). -/

namespace RelayHub.Queue

open List Table

/-! ## The leases of a window -/

/-- The clock of a pull on the subscription. -/
def pullNow (s : String) : QueueOp → Option Int
  | .pull request _ => if request.subscriptionId = s then some request.now else none
  | _ => none

/-- The number of leases a step grants, if it is a pull on the subscription at a time `p` accepts. -/
def grantedAt (s : String) (p : Int → Bool) (t : Transition QueueDb QueueOp QueueOut) : Nat :=
  match pullNow s t.input with
  | none => 0
  | some n => if p n then t.output.grants.length else 0

def dispatchedAt (D : Digests) (ops : List QueueOp) (s : String) (p : Int → Bool) : Nat :=
  (((queue D).transitions {} ops).map (grantedAt s p)).sum

/-- The leases granted by the pulls with `now` in `(t - 1 second, t]`. -/
def dispatched (D : Digests) (ops : List QueueOp) (s : String) (t : Int) : Nat :=
  dispatchedAt D ops s fun n => decide (t - second < n) && decide (n ≤ t)

theorem grantedAt_of_nil (s : String) (p : Int → Bool) {t : Transition QueueDb QueueOp QueueOut}
    (h : t.output.grants = []) : grantedAt s p t = 0 := by
  unfold grantedAt
  rw [h]
  split <;> simp

/-! ## The condition on deletes -/

/-- The `leased` rows of `s` that the statement deletes with their deliveries are at least a second
older than `n`. -/
def DeletesOld (s : String) (db : QueueDb) (n : Int) : DeadLetterOp → Prop
  | .delete appId subscriptionId ids =>
    ∀ a ∈ db.attempts, a.outcome = .leased → (∃ d ∈ db.deliveries, d.id = a.deliveryId ∧ d.subscriptionId = s ∧
        deadLetterTarget db appId subscriptionId ids d = true) → a.occurredAt + second ≤ n
  | .replay _ _ _ _ => True

/-- The step deletes no `leased` row of `s` from the second before one of the `later` pulls, nor, when
it is a pull on `s` itself, from the second before it as long as it has not counted yet. -/
def KeepsWindow (s : String) (db : QueueDb) (later : List Int) : QueueOp → Prop
  | .delete appId subscriptionId ids =>
    ∀ n ∈ later, DeletesOld s db n (.delete appId subscriptionId ids)
  | .pull request gaps =>
    ∀ k, ∀ op ∈ gaps k, (∀ n ∈ later, DeletesOld s db n op) ∧
      (k ≤ 3 → request.subscriptionId = s → DeletesOld s db request.now op)
  | _ => True

/-! ## What keeps the count -/

/-- No history row and no delivery is lost. -/
structure KeepsHistory (db db' : QueueDb) : Prop where
  attempts : List.Sublist db.attempts db'.attempts
  deliveries : ∀ d ∈ db.deliveries, ∃ d' ∈ db'.deliveries, d'.id = d.id ∧ d'.subscriptionId = d.subscriptionId

namespace KeepsHistory

variable {db db' : QueueDb}

theorem of_update {p : DeliveryRow → Bool} {f : DeliveryRow → DeliveryRow}
    (ha : List.Sublist db.attempts db'.attempts) (hd : db'.deliveries = updateWhere p f db.deliveries)
    (hsame : ∀ d, SameDelivery d (f d)) : KeepsHistory db db' := by
  refine ⟨ha, fun d hmem => ⟨if p d then f d else d, ?_, (hsame d).ite.id, (hsame d).ite.subscriptionId⟩⟩
  rw [hd]
  exact mem_updateWhere.mpr ⟨d, hmem, rfl⟩

theorem of_rows {p : DeliveryRow → Bool} {f : DeliveryRow → DeliveryRow} (hsame : ∀ d, SameDelivery d (f d)) :
    KeepsHistory db { db with deliveries := updateWhere p f db.deliveries } :=
  of_update (.refl _) rfl hsame

theorem of_same (ha : db'.attempts = db.attempts) (hd : db'.deliveries = db.deliveries) : KeepsHistory db db' :=
  ⟨by rw [ha], fun d hmem => ⟨d, hd ▸ hmem, rfl, rfl⟩⟩

theorem leasedSince (h : KeepsHistory db db') {s : String} {since : Int} {a : AttemptRow}
    (ha : leasedSince db s since a = true) : Queue.leasedSince db' s since a = true := by
  simp only [Queue.leasedSince, Bool.and_eq_true, any_eq_true, decide_eq_true_eq] at ha ⊢
  obtain ⟨hrow, d, hd, hid, hsub⟩ := ha
  obtain ⟨d', hd', hid', hsub'⟩ := h.deliveries d hd
  exact ⟨hrow, d', hd', hid'.trans hid, hsub'.trans hsub⟩

theorem recent_le (h : KeepsHistory db db') (s : String) (n : Int) :
    recentlyDispatched db s n ≤ recentlyDispatched db' s n := by
  have hrows : db.attempts.countP (Queue.leasedSince db s (n - second))
      ≤ db.attempts.countP (Queue.leasedSince db' s (n - second)) :=
    countP_mono_left fun a _ ha => h.leasedSince ha
  exact hrows.trans h.attempts.countP_le

end KeepsHistory

variable {s : String}

theorem recent_lease {db : QueueDb} {item : DeliveryRow} (hitem : item ∈ db.deliveries) (D : Digests)
    (terms : LeaseTerms) (receipt : String) (hsub : item.subscriptionId = s) {n : Int} (hn : n - second < terms.now) :
    recentlyDispatched db s n + 1 ≤ recentlyDispatched (leasedDb D terms receipt item db) s n := by
  have hkeeps : KeepsHistory db (leasedDb D terms receipt item db) :=
    .of_update (sublist_append_left _ _) rfl (leaseRow_same terms _ item)
  have hold : db.attempts.countP (leasedSince db s (n - second))
      ≤ db.attempts.countP (leasedSince (leasedDb D terms receipt item db) s (n - second)) :=
    countP_mono_left fun a _ ha => hkeeps.leasedSince ha
  have hnew : leasedSince (leasedDb D terms receipt item db) s (n - second) (leasedAttempt terms item) = true := by
    obtain ⟨d, hd, hid, hsub'⟩ := hkeeps.deliveries item hitem
    simp only [leasedSince, Bool.and_eq_true, any_eq_true, decide_eq_true_eq]
    exact ⟨⟨rfl, hn⟩, d, hd, hid, hsub'.trans hsub⟩
  show _ ≤ (db.attempts ++ [leasedAttempt terms item]).countP _
  rw [countP_append, countP_singleton, if_pos hnew]
  exact Nat.add_le_add_right hold 1

theorem recent_delete {db : QueueDb} (hnd : db.Keyed) {n : Int} {appId subscriptionId : String} {ids : List String}
    (hold : DeletesOld s db n (.delete appId subscriptionId ids)) :
    recentlyDispatched db s n ≤ recentlyDispatched (deleteQueueDeadLetters db appId subscriptionId ids).2 s n := by
  unfold recentlyDispatched deleteQueueDeadLetters
  rw [countP_filter]
  refine countP_mono_left fun a ha hcount => ?_
  simp only [leasedSince, Bool.and_eq_true, any_eq_true, decide_eq_true_eq] at hcount
  obtain ⟨⟨hleased, hrecent⟩, d, hd, hid, hsub⟩ := hcount
  -- the delivery of a counted row is no target: its lease is too recent
  have hkept : deadLetterTarget db appId subscriptionId ids d = false := by
    rw [← Bool.not_eq_true]
    intro htarget
    have := hold a ha hleased ⟨d, hd, hid, hsub, htarget⟩
    omega
  simp only [leasedSince, Bool.and_eq_true, any_eq_true, decide_eq_true_eq, Bool.not_eq_true', any_eq_false, mem_filter]
  refine ⟨⟨⟨hleased, hrecent⟩, d, ⟨hd, hkept⟩, hid, hsub⟩, fun e he hdeleted => ?_⟩
  obtain rfl : e = d := eq_of_key_eq hnd he hd (hdeleted.2.trans hid.symm)
  rw [hkept] at hdeleted
  cases hdeleted.1

/-! ## A pull keeps the count and adds its leases -/

section Pull

variable {D : Digests} {gaps : Nat → List DeadLetterOp} {db₀ : QueueDb} {s : String} {n : Int}
  {request : QueuePullRequest} {leased : List QueueDelivery}

/-- A statement in a gap. The rows it deletes were there when the pull started. -/
theorem recent_apply {written : List String} {selected : List DeliveryRow} {db : QueueDb}
    (ht : Traces db₀ written selected db) {op : DeadLetterOp} (hold : DeletesOld s db₀ n op) :
    recentlyDispatched db s n ≤ recentlyDispatched (op.apply written db) s n := by
  cases op with
  | replay appId subscriptionId ids now =>
    exact (KeepsHistory.of_rows (replayRow_same now)).recent_le s n
  | delete appId subscriptionId ids =>
    refine recent_delete ht.ids fun a ha hleased hdeleted => ?_
    obtain ⟨d, hd, hid, hsub, htarget⟩ := hdeleted
    obtain ⟨d₀, hd₀, hsame, hstart⟩ := ht.target_start hd htarget
    refine hold a ?_ hleased ⟨d₀, hd₀, hsame.id ▸ hid, hsame.subscriptionId ▸ hsub, hstart⟩
    rcases ht.leased a ha hleased with hmem | hin
    · exact hmem
    -- a delivery the pull has leased is not dead-lettered
    have hactive := (ht.chosen d hd (hid ▸ hin)).2
    rw [not_isActive_of_deadLetter (deadLetterTarget_status htarget)] at hactive
    cases hactive

theorem recent_counted {sub : QueueSubscription} {now : Int} {db₁ db₂ : QueueDb}
    {written : List String} (hnd : db₀.Keyed)
    (hold : ∀ k ≤ 3, ∀ op ∈ gaps k, DeletesOld s db₀ n op)
    (hprepare : pullPrepare gaps sub now db₀ = (db₁, written))
    (hgap : db₂ = interleave written (gaps 3) db₁) :
    Traces db₀ written [] db₂ ∧ recentlyDispatched db₀ s n ≤ recentlyDispatched db₂ s n := by
  obtain ⟨ht₁, h₁⟩ := pullPrepare_rule (J := fun db => recentlyDispatched db₀ s n ≤ recentlyDispatched db s n) hnd
    (KeepsHistory.recent_le (.of_update (sublist_insertAllIgnore _ _ _) rfl (reclaimRow_same sub now)) s n)
    (fun hk hop ht h => h.trans (recent_apply ht (hold _ (hk.trans (by decide)) _ hop)))
    (fun {db} h => h.trans (KeepsHistory.recent_le (.of_same (insertFailureCallbacks_attempts sub now db)
      (insertFailureCallbacks_deliveries sub now db)) s n))
    (fun h => h.trans ((KeepsHistory.of_rows (expireRow_same now)).recent_le s n)) hprepare
  rw [hgap]
  exact interleave_rule (J := fun db => recentlyDispatched db₀ s n ≤ recentlyDispatched db s n)
    (fun hop ht h => h.trans (recent_apply ht (hold 3 (le_refl 3) _ hop))) ht₁ h₁

/-- **A whole pull.** -/
theorem PullCase.recent {db' : QueueDb} (hcase : PullCase D gaps db₀ request leased db') (hnd : db₀.Keyed)
    (hold : ∀ k, ∀ op ∈ gaps k, DeletesOld s db₀ n op) :
    recentlyDispatched db₀ s n + (if request.subscriptionId = s ∧ n - second < request.now then leased.length else 0)
      ≤ recentlyDispatched db' s n := by
  cases hcase with
  | draining => simp
  | full sub hsub db₁ db₂ written hprepare hgap =>
    simpa using (recent_counted hnd (fun k _ => hold k) hprepare hgap).2
  | leasing sub hsub db₁ db₂ db₃ db' written hprepare hgap limit hpos hlimit hgap' leased hlease =>
    obtain ⟨ht₂, h₂⟩ := recent_counted hnd (fun k _ => hold k) hprepare hgap
    have hselect := interleave_rule (J := fun db => recentlyDispatched db₀ s n ≤ recentlyDispatched db s n)
      (fun hop ht h => h.trans (recent_apply ht (hold 4 _ hop))) ht₂ h₂
    rw [← hgap'] at hselect
    obtain ⟨ht₃, h₃⟩ := hselect
    -- the loop: so far the count has grown by the leases returned
    refine leaseSelected_rule (J := fun _ acc db => recentlyDispatched db₀ s n
      + (if request.subscriptionId = s ∧ n - second < request.now then acc.length else 0)
      ≤ recentlyDispatched db s n) ?_ ?_ (ht₃.select rfl) (.select ht₃.ids) hlease
      (by simpa using h₃)
    · intro k op rest acc db hk hop ht _ _ h
      exact h.trans (recent_apply ht (hold k op hop))
    · intro item e rest receipt acc db ht hwait hmem h
      by_cases hown : request.subscriptionId = s ∧ n - second < request.now
      · rw [if_pos hown] at h ⊢
        have hitem : item ∈ db.deliveries := (hwait.stored (item, e) mem_cons_self).1
        have hsubscription : item.subscriptionId = s := by
          have hpull := (mem_selectDeliveries hmem).2
          simp only [pullable, Bool.and_eq_true, decide_eq_true_eq] at hpull
          rw [hpull.1.1.1.1, (findSubscription_some hsub).2.2]
          exact hown.1
        have hcount := recent_lease hitem D (leaseTerms sub.toQueueSubscription request) receipt hsubscription hown.2
        rw [length_append, length_singleton]
        omega
      · rw [if_neg hown] at h ⊢
        refine h.trans (KeepsHistory.recent_le ?_ s n)
        exact .of_update (sublist_append_left _ _) rfl (leaseRow_same _ _ item)

/-- What a pull leases is left of the rate after the leases of the second before it. -/
theorem PullCase.rate {db' : QueueDb} (hcase : PullCase D gaps db₀ request leased db') (hnd : db₀.Keyed)
    (hs : request.subscriptionId = s) {R : Nat}
    (hrate : ∀ x ∈ db₀.subscriptions, x.id = s → x.maxDispatchRate = some (R : Int))
    (hold : ∀ k ≤ 3, ∀ op ∈ gaps k, DeletesOld s db₀ request.now op) :
    leased = [] ∨ recentlyDispatched db₀ s request.now + leased.length ≤ R := by
  cases hcase with
  | draining | full => exact .inl rfl
  | leasing sub hsub db₁ db₂ db₃ db' written hprepare hgap limit hpos hlimit hgap' leased hlease =>
    obtain ⟨hmem, -, hid⟩ := findSubscription_some hsub
    have hcounted := (recent_counted hnd hold hprepare hgap).2
    have hbudget := (pullLimit_le hlimit).2.2 R (hrate sub hmem (hid.trans hs))
    have hlength : leased.length ≤ limit.toNat :=
      (leaseSelected_length hlease).trans_le (selectDeliveries_length_le _ _ _ _)
    have hown : sub.id = s := hid.trans hs
    rw [hown] at hbudget
    exact .inr (by omega)

end Pull

/-! ## Whole runs -/

section Runs

variable {D : Digests} {s : String}

/-- **One step.** The count grows by at least the leases the step grants, seen from a later pull. -/
theorem exec_recent {db : QueueDb} (hnd : db.Keyed) {later : List Int}
    {n : Int} (hn : n ∈ later) {op : QueueOp} (hkeeps : KeepsWindow s db later op) :
    recentlyDispatched db s n + grantedAt s (fun m => decide (n - second < m))
        ⟨db, op, (queue D).out db op, (queue D).next db op⟩
      ≤ recentlyDispatched ((queue D).next db op) s n := by
  have hcase := exec_cases D db op
  generalize (queue D).out db op = out, (queue D).next db op = db' at hcase ⊢
  cases hcase with
  | control hgrants h =>
    rw [grantedAt_of_nil s _ hgrants]
    exact (KeepsHistory.of_same h.attempts h.deliveries).recent_le s n
  | publish rows h | complete rows h =>
    refine KeepsHistory.recent_le ⟨by rw [h.attempts], fun d hd => ⟨d, ?_, rfl, rfl⟩⟩ s n
    rw [h.deliveries]
    exact mem_append_left _ hd
  | settle =>
    exact KeepsHistory.recent_le (.of_update (sublist_append_left _ _) rfl (settleRow_same _ _ _ _ _)) s n
  | extend => exact (KeepsHistory.of_rows (extendRow_same _ _)).recent_le s n
  | @pull request gaps leased _ h =>
    refine le_trans (le_of_eq ?_) (h.recent hnd fun k op hop => (hkeeps k op hop).1 n hn)
    unfold grantedAt pullNow
    by_cases hown : request.subscriptionId = s
    · simp [hown, QueueOut.grants]
    · simp [hown]
  | replay => exact (KeepsHistory.of_rows (replayRow_same _)).recent_le s n
  | delete => exact recent_delete hnd (hkeeps n hn)

theorem dispatchedAt_concat (ops : List QueueOp) (op : QueueOp) (p : Int → Bool) :
    dispatchedAt D (ops ++ [op]) s p = dispatchedAt D ops s p + grantedAt s p
      ⟨reach D ops, op, (queue D).out (reach D ops) op, (queue D).next (reach D ops) op⟩ := by
  unfold dispatchedAt
  rw [Mealy.transitions_concat, map_append, sum_append]
  rfl

theorem dispatchedAt_mono (ops : List QueueOp) {p q : Int → Bool}
    (hpq : ∀ m, p m = true → q m = true) : dispatchedAt D ops s p ≤ dispatchedAt D ops s q := by
  refine sum_le_sum fun t _ => ?_
  unfold grantedAt
  split
  · exact le_refl _
  next m _ =>
  by_cases hp : p m = true
  · rw [if_pos hp, if_pos (hpq m hp)]
  · rw [if_neg hp]
    exact Nat.zero_le _

/-- The condition on a run: each step keeps the window of every pull after it. -/
def KeepsWindows (D : Digests) (s : String) (ops : List QueueOp) : Prop :=
  (queue D).Steps (fun db op after => KeepsWindow s db (after.filterMap (pullNow s)) op) {} ops

theorem KeepsWindows.of_split {before after : List QueueOp} {op : QueueOp}
    (h : KeepsWindows D s (before ++ op :: after)) :
    KeepsWindow s (reach D before) (after.filterMap (pullNow s)) op :=
  Mealy.Steps.of_split h

/-- **The history never falls behind.** Seen from a later pull, it shows every lease of the second
before it. -/
theorem dispatched_le_recent {before after : List QueueOp} (h : KeepsWindows D s (before ++ after))
    {n : Int} (hn : n ∈ after.filterMap (pullNow s)) :
    dispatchedAt D before s (fun m => decide (n - second < m)) ≤ recentlyDispatched (reach D before) s n := by
  induction before using reverseRecOn generalizing after with
  | nil => exact Nat.zero_le _
  | append_singleton before op ih =>
    rw [append_assoc, singleton_append] at h
    have hbefore : n ∈ (op :: after).filterMap (pullNow s) := by
      rw [filterMap_cons]
      split
      · exact hn
      · exact mem_cons_of_mem _ hn
    have hprev := ih h hbefore
    have hstep := exec_recent (D := D) (reach_ids_nodup D before) hn h.of_split
    rw [dispatchedAt_concat, reach_concat]
    omega

end Runs

/-- A pull in the window. Its window ends no earlier than the pull, so the leases granted before it in
the window lie in the pull's own second, where it has counted them. -/
theorem dispatched_pull_le {D : Digests} {before after : List QueueOp} {R : Nat} {request : QueuePullRequest}
    {gaps : Nat → List DeadLetterOp} {leased : List QueueDelivery} {t : Int}
    (hkeeps : KeepsWindows D s (before ++ .pull request gaps :: after))
    (hrate : ∀ x ∈ (reach D before).subscriptions, x.id = s → x.maxDispatchRate = some (R : Int))
    (hcase : PullCase D gaps (reach D before) request leased ((queue D).next (reach D before) (.pull request gaps)))
    (hs : request.subscriptionId = s) (hhigh : request.now ≤ t) :
    leased = [] ∨ dispatched D before s t + leased.length ≤ R := by
  have hnow : request.now ∈ (.pull request gaps :: after).filterMap (pullNow s) := by
    simp [pullNow, hs]
  have hseen := dispatched_le_recent hkeeps hnow
  have hearlier : dispatched D before s t ≤ dispatchedAt D before s (fun m => decide (request.now - second < m)) := by
    refine dispatchedAt_mono before fun m hm => ?_
    simp only [Bool.and_eq_true, decide_eq_true_eq] at hm ⊢
    omega
  have hbudget := hcase.rate (reach_ids_nodup D before) hs hrate fun k hk op hop => (hkeeps.of_split k op hop).2 hk hs
  rcases hbudget with hnil | hbudget
  · exact .inl hnil
  · exact .inr (by omega)

/-- **The dispatch rate.** In a run that keeps `max_dispatch_rate` at `R` and deletes no delivery
leased within the second before a later pull, the pulls of every half-open second lease at most `R`
deliveries. -/
theorem rate_bounded (D : Digests) (ops : List QueueOp) (s : String) (R : Nat)
    (hrate : ∀ t ∈ (queue D).transitions {} ops, ∀ x ∈ t.pre.subscriptions, x.id = s →
      x.maxDispatchRate = some (R : Int))
    (hkeeps : KeepsWindows D s ops) :
    ∀ t, dispatched D ops s t ≤ R := by
  intro t
  have hprefix : ∀ before after, ops = before ++ after → dispatched D before s t ≤ R := by
    intro before
    induction before using reverseRecOn with
    | nil => exact fun _ _ => Nat.zero_le R
    | append_singleton before op ih =>
      intro after hsplit
      rw [append_assoc, singleton_append] at hsplit
      have hprev := ih (op :: after) hsplit
      rw [dispatched, dispatchedAt_concat, ← dispatched]
      rcases out_cases D (reach D before) op with hnone | ⟨request, gaps, leased, rfl, hcase, hout⟩
      · rw [grantedAt_of_nil s _ hnone]
        exact hprev
      · subst hsplit
        have hrate' : ∀ x ∈ (reach D before).subscriptions, x.id = s → x.maxDispatchRate = some (R : Int) :=
          hrate _ ((queue D).mem_transitions_of_split {} before (.pull request gaps) after)
        rw [hout]
        unfold grantedAt pullNow
        by_cases hs : request.subscriptionId = s
        · by_cases hwindow : t - second < request.now ∧ request.now ≤ t
          · rcases dispatched_pull_le hkeeps hrate' hcase hs hwindow.2 with rfl | hpull
            · simpa [hs, QueueOut.grants] using hprev
            · simpa [hs, hwindow.1, hwindow.2, QueueOut.grants] using hpull
          · have hlate : (decide (t - second < request.now) && decide (request.now ≤ t)) = false := by
              simpa using hwindow
            simpa [hs, hlate] using hprev
        · simpa [hs] using hprev
  exact hprefix ops [] (append_nil ops).symm

/-! ## Two runs -/

def ratedSubscription : QueueSubscription := { sampleSubscription with maxDispatchRate := some 1 }

/-- The first lease, its dead letter and the delete: nothing is left of the lease in the history. -/
def deletedLeaseRun : List QueueOp :=
  [.createSubscription ratedSubscription, .publish (samplePublication "evt_1" 0),
    .publish (samplePublication "evt_2" 0), samplePull second ["qrc_1"],
    sampleSettle "qrc_1" .deadLetter second,
    .delete "app_1" "qsub_1" ["qdl_2ce4e1f7546ac282d16d0437963327a3"]]

theorem rate_exceeded_after_delete :
    let run := deletedLeaseRun ++ [samplePull second ["qrc_2"]]
    (∀ t ∈ (queue sampleDigests).transitions {} run, ∀ x ∈ t.pre.subscriptions, x.id = "qsub_1" →
      x.maxDispatchRate = some 1) ∧
    (run.filterMap (pullNow "qsub_1")).Pairwise (· ≤ ·) ∧
    dispatched sampleDigests run "qsub_1" second = 2 := by
  decide

theorem rate_bounded_old_delete :
    KeepsWindows sampleDigests "qsub_1" (deletedLeaseRun ++ [samplePull (2 * second) ["qrc_2"]]) ∧
    ∀ t, dispatched sampleDigests (deletedLeaseRun ++ [samplePull (2 * second) ["qrc_2"]]) "qsub_1" t ≤ 1 := by
  have hkeeps : KeepsWindows sampleDigests "qsub_1" (deletedLeaseRun ++ [samplePull (2 * second) ["qrc_2"]]) := by
    refine ⟨trivial, trivial, trivial, fun k op hop => ?_, trivial, ?_, fun k op hop => ?_, trivial⟩
    · cases hop
    · show ∀ n ∈ _, ∀ a ∈ _, _
      decide
    · cases hop
  exact ⟨hkeeps, rate_bounded sampleDigests _ "qsub_1" 1 (by decide) hkeeps⟩

end RelayHub.Queue
