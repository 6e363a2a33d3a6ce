import Mathlib.Data.Prod.Lex
import RelayHub.Queue.Replayed

/-! # RelayHub queue — the order of a pull

A pull selects the first deliveries of a total order: effective priority, then `available_at`,
`created_at` and the id (`pullOrder_iff`). The effective priority grows by one for each minute of
waiting and is capped at 10, the largest priority there is. After 20 minutes every delivery has reached
the cap, so from then on the older one goes first (`starved_leased_first`).

The selection skips rows that another transaction has locked. None is here: whoever writes an available
delivery waits for the subscription row, which the pull holds. -/

namespace RelayHub.Queue

open List Table

/-! ## The order -/

/-- What the `ORDER BY` of the selection compares. -/
def pullKey (now : Int) (d : DeliveryRow) : ℤ ×ₗ ℤ ×ₗ ℤ ×ₗ String :=
  toLex (-effectivePriority now d, toLex (d.availableAt, toLex (d.createdAt, d.id)))

theorem pullOrder_iff {now : Int} {a b : DeliveryRow} : pullOrder now a b = true ↔ pullKey now a ≤ pullKey now b := by
  simp only [pullOrder, pullKey, Prod.Lex.toLex_le_toLex, Bool.or_eq_true, Bool.and_eq_true,
    decide_eq_true_eq, neg_lt_neg_iff, neg_inj]

instance (now : Int) : Std.Total fun a b : DeliveryRow × EventRow => pullOrder now a.1 b.1 = true where
  total a b := by
    rw [pullOrder_iff, pullOrder_iff]
    exact le_total _ _

instance (now : Int) : IsTrans (DeliveryRow × EventRow) fun a b => pullOrder now a.1 b.1 = true where
  trans a b c hab hbc := by
    rw [pullOrder_iff] at hab hbc ⊢
    exact le_trans hab hbc

/-- What is selected, in order: the first deliveries of the eligible ones. -/
theorem selectDeliveries_eq_take (sub : QueueSubscription) (now : Int) (limit : Nat) (db : QueueDb) :
    ∃ due : List (DeliveryRow × EventRow), selectDeliveries sub now limit db = due.take limit ∧
      due.Pairwise (fun a b => pullOrder now a.1 b.1 = true) ∧
      ∀ d e, (d, e) ∈ due ↔ d ∈ db.deliveries ∧ pullable sub now db d = true ∧
        db.events.find? (fun e => e.id = d.eventId) = some e := by
  refine ⟨_, rfl, pairwise_insertionSort _ _, fun d e => ?_⟩
  rw [mem_insertionSort, mem_filterMap]
  constructor
  · rintro ⟨d', hd', he⟩
    obtain ⟨e', hfind, heq⟩ := Option.map_eq_some_iff.mp he
    cases heq
    exact ⟨(mem_filter.mp hd').1, (mem_filter.mp hd').2, hfind⟩
  · rintro ⟨hd, hpull, hfind⟩
    exact ⟨d, mem_filter.mpr ⟨hd, hpull⟩, by rw [hfind]; rfl⟩

theorem leaseSelected_ids {D : Digests} {gaps : Nat → List DeadLetterOp} {locked : List String}
    {terms : LeaseTerms} {k : Nat} {selected : List (DeliveryRow × EventRow)} {receipts : List String}
    {db db' : QueueDb} {leased : List QueueDelivery}
    (h : leaseSelected D gaps locked terms k selected receipts db = .ok (leased, db')) :
    leased.map (·.id) = selected.map (·.1.id) := by
  -- what is returned so far and what is left to lease always make up the selection
  have hall := leaseSelected_induction
    (I := fun _ rest acc _ => acc.map (·.id) ++ rest.map (·.1.id) = selected.map (·.1.id))
    (fun hI => by simpa [leasedDelivery] using hI) [] h rfl
  simpa using hall

/-! ## Waiting longest -/

/-- A delivery that a pull may lease when it selects. -/
structure Eligible (gaps : Nat → List DeadLetterOp) (sub : QueueSubscription) (now : Int) (db : QueueDb)
    (d : DeliveryRow) : Prop where
  stored : d ∈ (selectingDb gaps sub now db).deliveries
  pullable : pullable sub now (selectingDb gaps sub now db) d = true

theorem effectivePriority_of_starved {now : Int} {d : DeliveryRow} (hpriority : -10 ≤ d.priority)
    (hage : 20 * 60 * second ≤ now - d.availableAt) : effectivePriority now d = 10 := by
  have hminutes : 20 ≤ (now - d.availableAt) / (60 * second) := by
    rw [Int.le_ediv_iff_mul_le (by decide)]
    rw [show (20 : Int) * (60 * second) = 20 * 60 * second from by decide]
    exact hage
  show min 10 _ = 10
  omega

theorem pullOrder_of_starved {now : Int} {a b : DeliveryRow} (hpriority : -10 ≤ a.priority)
    (hage : 20 * 60 * second ≤ now - a.availableAt) (hlt : a.availableAt < b.availableAt) :
    pullOrder now a b = true ∧ pullOrder now b a = false := by
  have ha := effectivePriority_of_starved hpriority hage
  have hb : effectivePriority now b ≤ 10 := min_le_left _ _
  -- either `b` is below the cap, or both are at it and `available_at` decides
  have hkey : pullKey now a < pullKey now b := by
    rw [pullKey, pullKey, Prod.Lex.toLex_lt_toLex, ha]
    rcases hb.lt_or_eq with hb | hb
    · exact .inl (by show (-10 : Int) < _; omega)
    · refine .inr ⟨by show (-10 : Int) = _; omega, ?_⟩
      exact Prod.Lex.toLex_lt_toLex.mpr (.inl hlt)
  refine ⟨pullOrder_iff.mpr hkey.le, ?_⟩
  rw [Bool.eq_false_iff, ne_eq, pullOrder_iff, not_le]
  exact hkey

/-- **Starvation protection.** Take a pull in a reachable state and two deliveries eligible for it. If `a`
has been available for 20 minutes and for longer than `b`, then `a` precedes `b` in the order of the
selection, whatever their priorities; and when the pull leases `b`, it also leases `a`, before it. -/
theorem starved_leased_first (D : Digests) (ops : List QueueOp) (gaps : Nat → List DeadLetterOp)
    (request : QueuePullRequest) (sub : SubscriptionRow) (a b : DeliveryRow)
    (hsub : (reach D ops).findSubscription request.appId request.subscriptionId = some sub)
    (ha : Eligible gaps sub.toQueueSubscription request.now (reach D ops) a)
    (hb : Eligible gaps sub.toQueueSubscription request.now (reach D ops) b)
    (hpriority : -10 ≤ a.priority)
    (hage : 20 * 60 * second ≤ request.now - a.availableAt) (hlt : a.availableAt < b.availableAt) :
    pullOrder request.now a b = true ∧ pullOrder request.now b a = false ∧
      ∀ leased db', pullQueueDeliveries D gaps (reach D ops) request = .ok (leased, db') →
        b.id ∈ leased.map (·.id) → List.Sublist [a.id, b.id] (leased.map (·.id)) := by
  obtain ⟨hab, hba⟩ := pullOrder_of_starved hpriority hage hlt
  refine ⟨hab, hba, fun leased db' hpull hleased => ?_⟩
  cases pullQueueDeliveries_cases hpull with
  | draining | full => cases hleased
  | leasing sub' hsub' db₁ db₂ db₃ _ written hprepare hgap limit _ hlimit hgap' _ hlease =>
    obtain rfl : sub = sub' := Option.some.inj (hsub.symm.trans hsub')
    have hdb₃ : db₃ = selectingDb gaps sub.toQueueSubscription request.now (reach D ops) := by
      rw [hgap', hgap, selectingDb, ratedDb, countedDb, hprepare]
    subst hdb₃
    rw [leaseSelected_ids hlease] at hleased ⊢
    obtain ⟨due, hselect, hsorted, hdue⟩ := selectDeliveries_eq_take sub.toQueueSubscription
      request.now limit.toNat (selectingDb gaps sub.toQueueSubscription request.now (reach D ops))
    rw [hselect] at hleased ⊢
    have hinv := selectingDb_inv gaps request.now (reach_inv D ops) (findSubscription_some hsub).1
    obtain ⟨⟨b', e⟩, hmem, hid⟩ := mem_map.mp hleased
    -- ids are unique, so what was leased is `b`
    obtain rfl : b' = b :=
      eq_of_key_eq hinv.deliveryIds ((hdue b' e).mp (mem_of_mem_take hmem)).1 hb.stored hid
    obtain ⟨e₀, he₀⟩ := hinv.find_event ha.stored
    have hpair := pair_sublist_take hsorted hmem ((hdue a e₀).mpr ⟨ha.stored, ha.pullable, he₀⟩)
      (fun heq => absurd hlt (by cases heq; exact lt_irrefl _)) (by rw [hba]; exact Bool.false_ne_true)
    exact hpair.map (·.1.id)

/-! One event of the lowest priority, and ten minutes later one of the highest. A pull half an hour after
the first leases the first before the second. -/

def lowPublication : QueuePublication := { samplePublication "evt_1" 0 with queuePriority := -10 }

def highPublication : QueuePublication :=
  { samplePublication "evt_2" (600 * second) with queuePriority := 10 }

def starvedRun : List QueueOp :=
  [.createSubscription sampleSubscription, .publish lowPublication, .publish highPublication]

def starvedRequest : QueuePullRequest where
  appId := "app_1"
  subscriptionId := "qsub_1"
  limit := 2
  visibility := 0
  now := 1800 * second
  receipts := ["qrc_1", "qrc_2"]

theorem starved_leased_first_low :
    let a := publishedDelivery sampleDigests lowPublication sampleSubscription
    let b := publishedDelivery sampleDigests highPublication sampleSubscription
    pullOrder starvedRequest.now a b = true ∧ pullOrder starvedRequest.now b a = false ∧
      ∀ leased db', pullQueueDeliveries sampleDigests (fun _ => []) (reach sampleDigests starvedRun)
          starvedRequest = .ok (leased, db') →
        b.id ∈ leased.map (·.id) → List.Sublist [a.id, b.id] (leased.map (·.id)) := by
  refine starved_leased_first sampleDigests starvedRun (fun _ => []) starvedRequest
    ⟨sampleSubscription, by decide⟩ _ _ rfl ⟨?_, ?_⟩ ⟨?_, ?_⟩ (by decide) (by decide) (by decide)
  all_goals decide +kernel

end RelayHub.Queue
