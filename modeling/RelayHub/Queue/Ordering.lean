import RelayHub.Queue.InPull

/-! # RelayHub queue — one delivery in flight for each ordering key

Under `ordering_mode='key'` a pull takes a delivery only when no unfinished delivery of its key stands
before it in `(created_at,id)`. Exclusivity therefore rests on an invariant about positions:
`Ordered` says that no unfinished delivery stands before one of its key that is in flight, or that the
running pull has selected. Two deliveries of one key in flight would each have to stand before the
other.

The invariant is kept by everything that only finishes work or leases what was selected. It breaks
when a delivery becomes available at a position before one in flight: a replayed dead letter, an
occurrence completed late, a publication with an earlier `created_at`. `KeepsKeyOrder` is the condition
that a step does not do that, and `key_exclusive` is exclusivity for the runs whose steps meet it. -/

namespace RelayHub.Queue

open List Table

/-! ## Positions -/

/-- `x` and `y` belong to the subscription and share an ordering key. -/
@[mk_iff] structure SameKey (subscriptionId : String) (x y : DeliveryRow) : Prop where
  left : x.subscriptionId = subscriptionId
  right : y.subscriptionId = subscriptionId
  some : y.orderingKey.isSome = true
  key : x.orderingKey = y.orderingKey

instance (subscriptionId : String) (x y : DeliveryRow) : Decidable (SameKey subscriptionId x y) :=
  decidable_of_iff _ (sameKey_iff subscriptionId x y).symm

variable {subscriptionId s : String} {x y : DeliveryRow} {db db₀ : QueueDb} {pending written : List String}
  {selected : List DeliveryRow}

theorem SameKey.of_same {x' y' : DeliveryRow} (hx : SameDelivery x x') (hy : SameDelivery y y')
    (h : SameKey subscriptionId x' y') : SameKey subscriptionId x y :=
  ⟨hx.subscriptionId ▸ h.left, hy.subscriptionId ▸ h.right, hy.orderingKey ▸ h.some,
    by rw [← hx.orderingKey, ← hy.orderingKey]; exact h.key⟩

theorem id_eq_of_not_precedes (hxy : x.precedes y = false) (hyx : y.precedes x = false) : x.id = y.id := by
  simp only [DeliveryRow.precedes, Bool.or_eq_false_iff, decide_eq_false_iff_not, Bool.and_eq_false_iff] at hxy hyx
  have htime : x.createdAt = y.createdAt := le_antisymm (not_lt.mp hyx.1) (not_lt.mp hxy.1)
  have hxid : ¬ x.id < y.id := by
    rcases hxy.2 with hne | hlt
    · exact absurd htime hne
    · exact hlt
  have hyid : ¬ y.id < x.id := by
    rcases hyx.2 with hne | hlt
    · exact absurd htime.symm hne
    · exact hlt
  exact le_antisymm (not_lt.mp hyid) (not_lt.mp hxid)

/-! ## The invariant -/

/-- No unfinished delivery stands before one of its key that is in flight or in `pending`. -/
def Ordered (subscriptionId : String) (db : QueueDb) (pending : List String) : Prop :=
  ∀ x ∈ db.deliveries, ∀ y ∈ db.deliveries, SameKey subscriptionId x y → x.isActive = true →
    (y.isInFlight = true ∨ y.id ∈ pending) → x.precedes y = false

/-- How a row may come about so that the order is kept: it is an old row that was unfinished if it is
now, and was in flight or selected if it is in flight now; or it enters at a position before no row in
flight or selected. -/
inductive KeepsPlace (subscriptionId : String) (db : QueueDb) (pending pending' : List String)
    (d' : DeliveryRow) : Prop where
  | old (d : DeliveryRow) (hd : d ∈ db.deliveries) (hsame : SameDelivery d d')
      (hactive : d'.isActive = true → d.isActive = true)
      (hflight : d'.isInFlight = true → d.isInFlight = true ∨ d.id ∈ pending)
  | entering (hidle : d'.isInFlight = false) (hout : d'.id ∉ pending')
      (hplace : ∀ y ∈ db.deliveries, SameKey subscriptionId d' y →
        (y.isInFlight = true ∨ y.id ∈ pending) → d'.precedes y = false)

theorem Ordered.step {db' : QueueDb} {pending' : List String}
    (h : Ordered subscriptionId db pending) (hpending : pending' ⊆ pending)
    (hrows : ∀ d' ∈ db'.deliveries, KeepsPlace subscriptionId db pending pending' d') :
    Ordered subscriptionId db' pending' := by
  intro x' hx' y' hy' hkey hactive hflight
  cases hrows y' hy' with
  | entering hidle hout =>
    -- a row that just entered is neither in flight nor selected
    rcases hflight with hflight | hflight
    · rw [hidle] at hflight
      cases hflight
    · exact absurd hflight hout
  | old y hy hysame _ hyflight =>
    have hyflight' : y.isInFlight = true ∨ y.id ∈ pending := by
      rcases hflight with hflight | hflight
      · exact hyflight hflight
      · exact .inr (hpending (hysame.id ▸ hflight))
    cases hrows x' hx' with
    | old x hx hxsame hxactive =>
      rw [hxsame.precedes hysame]
      exact h x hx y hy (hkey.of_same hxsame hysame) (hxactive hactive) hyflight'
    | entering _ _ hplace =>
      rw [(SameDelivery.refl x').precedes hysame]
      exact hplace y hy (hkey.of_same (.refl x') hysame) hyflight'

section

variable (h : Ordered subscriptionId db pending)

include h

theorem Ordered.of_finishing {db' : QueueDb} (hrows : ∀ d' ∈ db'.deliveries, ∃ d ∈ db.deliveries, SameDelivery d d' ∧
      (d'.isActive = true → d.isActive = true) ∧ (d'.isInFlight = true → d.isInFlight = true)) :
    Ordered subscriptionId db' pending := by
  refine h.step (fun _ hid => hid) fun d' hd' => ?_
  obtain ⟨d, hd, hsame, hactive, hflight⟩ := hrows d' hd'
  exact .old d hd hsame hactive fun hf => .inl (hflight hf)

theorem Ordered.of_finishing_update {db' : QueueDb} {p : DeliveryRow → Bool} {f : DeliveryRow → DeliveryRow}
    (hd : db'.deliveries = updateWhere p f db.deliveries) (hsame : ∀ d, SameDelivery d (f d))
    (hactive : ∀ d ∈ db.deliveries, p d = true → (f d).isActive = true → d.isActive = true)
    (hflight : ∀ d ∈ db.deliveries, p d = true → (f d).isInFlight = true → d.isInFlight = true) :
    Ordered subscriptionId db' pending := by
  refine h.of_finishing fun d' hd' => ?_
  rw [hd] at hd'
  rcases mem_updateWhere_cases hd' with ⟨d, hmem, hp, rfl⟩ | ⟨hmem, -⟩
  · exact ⟨d, hmem, hsame d, hactive d hmem hp, hflight d hmem hp⟩
  · exact ⟨d', hmem, .refl d', id, id⟩

theorem Ordered.exclusive (hnd : db.Keyed) (hx : x ∈ db.deliveries) (hy : y ∈ db.deliveries)
    (hkey : SameKey subscriptionId x y) (hxf : x.isInFlight = true) (hyf : y.isInFlight = true) : x = y := by
  have hkey' : SameKey subscriptionId y x :=
    ⟨hkey.right, hkey.left, hkey.key ▸ hkey.some, hkey.key.symm⟩
  have hxy := h x hx y hy hkey (isActive_of_isInFlight hxf) (.inl hyf)
  have hyx := h y hy x hx hkey' (isActive_of_isInFlight hyf) (.inl hxf)
  exact eq_of_key_eq hnd hx hy (id_eq_of_not_precedes hxy hyx)

end

/-! ## The condition on a step -/

/-- The deliveries a pull selects, from its arguments and the tables it starts on. -/
def pullSelection (gaps : Nat → List DeadLetterOp) (db : QueueDb) (request : QueuePullRequest) : List DeliveryRow :=
  match db.findSubscription request.appId request.subscriptionId with
  | none => []
  | some sub =>
    let (db₁, written) := pullPrepare gaps sub.toQueueSubscription request.now db
    let db₂ := interleave written (gaps 3) db₁
    match pullLimit sub.toQueueSubscription request db₁ db₂ with
    | none => []
    | some limit =>
      (selectDeliveries sub.toQueueSubscription request.now limit.toNat
        (interleave written (gaps 4) db₂)).map Prod.fst

/-- A replay inside a pull that started on `db` and selects `selected`: what it makes available
stands before no delivery of its key that is in flight or, once the selection has run (gap 5 and
later), selected. -/
def GapKeepsKeyOrder (subscriptionId : String) (db : QueueDb) (selected : List DeliveryRow) (k : Nat) :
    DeadLetterOp → Prop
  | .replay appId subscriptionId' ids _ =>
    ∀ x ∈ db.deliveries, deadLetterTarget db appId subscriptionId' ids x = true →
      (∀ y ∈ db.deliveries, SameKey subscriptionId x y → y.isInFlight = true → x.precedes y = false) ∧
      (5 ≤ k → ∀ y ∈ selected, SameKey subscriptionId x y → x.precedes y = false)
  | .delete _ _ _ => True

/-- The step makes no delivery available at a position before a delivery of the same key that is in
flight (or that the running pull has selected). -/
def KeepsKeyOrder (D : Digests) (subscriptionId : String) (db : QueueDb) : QueueOp → Prop
  | .pull request gaps =>
    ∀ k, ∀ op ∈ gaps k, GapKeepsKeyOrder subscriptionId db (pullSelection gaps db request) k op
  | op =>
    ∀ x ∈ entering D db op, ∀ y ∈ db.deliveries, SameKey subscriptionId x y →
      y.isInFlight = true → x.precedes y = false

/-! ## The statements keep the order -/

section Statements

variable {db : QueueDb} {pending : List String}

namespace Ordered

variable (h : Ordered s db pending)

include h

theorem reclaim (sub : QueueSubscription) (now : Int) : Ordered s (reclaimExpired sub now db) pending :=
  h.of_finishing_update rfl (reclaimRow_same sub now) (fun _ _ hp _ => isActive_of_isInFlight (reclaimable_inFlight hp))
    (fun _ _ hp _ => reclaimable_inFlight hp)

theorem expire (sub : QueueSubscription) (now : Int) : Ordered s (expireRetained sub now db) pending := by
  refine h.of_finishing_update rfl (expireRow_same now) ?_ ?_
  · intro d _ _ hactive
    cases hactive
  · intro d _ _ hflight
    cases hflight

theorem settle (D : Digests) (sub : QueueSubscription) (settlement : QueueSettlement) (next : NextStatus)
    (availableAt now : Int) (d : DeliveryRow) :
    Ordered s (settledDb D sub settlement next availableAt now d db) pending :=
  h.of_finishing_update rfl (settleRow_same _ _ _ _ _)
    (fun _ _ hp _ => isActive_of_isInFlight (receiptTarget_inFlight hp))
    (fun _ _ hp _ => receiptTarget_inFlight hp)

theorem extend (D : Digests) (appId subscriptionId : String) (extension : QueueLeaseExtension) (now : Int) :
    Ordered s (extendQueueLease D appId subscriptionId extension now db).2 pending :=
  h.of_finishing_update rfl (extendRow_same _ _) (fun _ _ hp _ => isActive_of_isInFlight (receiptTarget_inFlight hp))
    (fun _ _ hp _ => receiptTarget_inFlight hp)

theorem delete (appId subscriptionId : String) (ids : List String) :
    Ordered s (deleteQueueDeadLetters db appId subscriptionId ids).2 pending :=
  h.of_finishing fun d hd => ⟨d, mem_of_mem_filter hd, .refl d, id, id⟩

/-- A replay keeps the order when what it makes available stands before nothing in flight or
selected. -/
theorem replay (appId subscriptionId : String) (ids : List String) (now : Int)
    (hplace : ∀ d ∈ db.deliveries, deadLetterTarget db appId subscriptionId ids d = true →
      d.id ∉ pending ∧ ∀ y ∈ db.deliveries, SameKey s d y → (y.isInFlight = true ∨ y.id ∈ pending) →
      d.precedes y = false) :
    Ordered s (replayQueueDeadLetters db appId subscriptionId ids now).2 pending := by
  refine h.step (fun _ hid => hid) fun d' hd' => ?_
  rcases mem_updateWhere_cases hd' with ⟨d, hd, htarget, rfl⟩ | ⟨hd, -⟩
  · obtain ⟨hout, hbefore⟩ := hplace d hd htarget
    refine .entering rfl hout fun y hy hkey hflight => ?_
    exact hbefore y hy (hkey.of_same (replayRow_same now d) (.refl y)) hflight
  · exact .old d' hd (.refl d') id .inl

end Ordered

theorem Ordered.lease {item : DeliveryRow} (h : Ordered s db (item.id :: pending)) (D : Digests)
    (terms : LeaseTerms) (receipt : String)
    (hactive : ∀ d ∈ db.deliveries, d.id = item.id → d.isActive = true) :
    Ordered s (leasedDb D terms receipt item db) pending := by
  refine h.step (fun _ hid => mem_cons_of_mem _ hid) fun d' hd' => ?_
  rcases mem_updateWhere_cases hd' with ⟨d, hd, hid, rfl⟩ | ⟨hd, -⟩
  · have hid := of_decide_eq_true hid
    exact .old d hd (leaseRow_same terms _ item d) (fun _ => hactive d hd hid) fun _ => .inr (hid ▸ mem_cons_self)
  · exact .old d' hd (.refl d') id .inl

end Statements

/-! ## Inside a pull -/

section Pull

variable {db : QueueDb} {pending : List String}

/-- **One statement in a gap.** The condition on the start of the pull covers what a replay makes
available in its middle. -/
theorem Ordered.apply {k : Nat} {op : DeadLetterOp} (h : Ordered s db pending)
    (ht : Traces db₀ written selected db) (hpending : pending ⊆ selected.map (·.id))
    (hk : 5 ≤ k ∨ selected = []) (hop : GapKeepsKeyOrder s db₀ selected k op) :
    Ordered s (op.apply written db) pending := by
  cases op with
  | delete => exact h.delete _ _ _
  | replay appId subscriptionId ids now =>
    refine h.replay _ _ _ now fun d hd htarget => ?_
    obtain ⟨d₀, hd₀, hsame, hstart⟩ := ht.target_start hd htarget
    obtain ⟨hflying, hchosen⟩ := hop d₀ hd₀ hstart
    refine ⟨fun hin => ?_, fun y hy hkey hflight => ?_⟩
    · have hactive := (ht.chosen d hd (hpending hin)).2
      rw [not_isActive_of_deadLetter (deadLetterTarget_status htarget)] at hactive
      cases hactive
    · obtain ⟨y₀, hy₀, hysame, hyflight, -⟩ := ht.rows y hy
      have hselected : y.id ∈ selected.map (·.id) → d.precedes y = false := by
        intro hin
        obtain ⟨⟨z, hz, hzsame⟩, -⟩ := ht.chosen y hy hin
        have hlate : 5 ≤ k := by
          rcases hk with hk | hk
          · exact hk
          · rw [hk] at hz
            cases hz
        rw [hsame.precedes hzsame]
        exact hchosen hlate z hz (hkey.of_same hsame hzsame)
      rcases hflight with hflight | hflight
      · rcases hyflight hflight with hf | hin
        · rw [hsame.precedes hysame]
          exact hflying y₀ hy₀ (hkey.of_same hsame hysame) hf
        · exact hselected hin
      · exact hselected (hpending hflight)

/-- **The selection.** Under `ordering_mode='key'` nothing unfinished of its key stands before a
selected delivery. -/
theorem Ordered.select (h : Ordered s db []) (hnd : db.Keyed)
    {sub : QueueSubscription} (hmode : sub.id = s → sub.orderingMode = .key) (now : Int)
    (limit : Nat) : Ordered s db ((selectDeliveries sub now limit db).map (·.1.id)) := by
  intro x hx y hy hkey hactive hflight
  rcases hflight with hflight | hin
  · exact h x hx y hy hkey hactive (.inl hflight)
  obtain ⟨z, hz, hid⟩ := mem_map.mp hin
  obtain ⟨hmem, hpullable⟩ := mem_selectDeliveries hz
  obtain rfl : z.1 = y := eq_of_key_eq hnd hmem hy hid
  simp only [pullable, Bool.and_eq_true, decide_eq_true_eq, Bool.or_eq_true, Bool.not_eq_true'] at hpullable
  obtain ⟨⟨⟨⟨hsub, -⟩, -⟩, -⟩, hfree⟩ := hpullable
  rw [hmode (hsub.symm.trans hkey.right)] at hfree
  have hnot : blocked db z.1 = false := by
    rcases hfree with hfree | hfree
    · cases hfree
    · exact hfree
  rw [blocked, hkey.some, Bool.true_and, any_eq_false] at hnot
  simpa [hkey.left, hkey.right, hkey.key, hactive] using hnot x hx

end Pull

/-! ## The operations -/

section Operations

variable {D : Digests} {db db' : QueueDb}

theorem PullCase.ordered {gaps : Nat → List DeadLetterOp} {request : QueuePullRequest}
    {leased : List QueueDelivery} (hcase : PullCase D gaps db request leased db')
    (hnd : db.Keyed) (h : Ordered s db [])
    (hmode : ∀ x ∈ db.subscriptions, x.id = s → x.orderingMode = .key)
    (hkeeps : ∀ k, ∀ op ∈ gaps k, GapKeepsKeyOrder s db (pullSelection gaps db request) k op) :
    Ordered s db' [] := by
  -- before the selection a gap needs only the first half of its condition
  have hearly : ∀ {k op written db₁}, op ∈ gaps k → Traces db written [] db₁ → Ordered s db₁ [] →
      Ordered s (op.apply written db₁) [] := by
    intro k op written db₁ hop ht h₁
    have hkeep := hkeeps k op hop
    refine h₁.apply (k := k) ht (by simp) (.inr rfl) ?_
    cases op with
    | delete => trivial
    | replay => exact fun x hx htarget => ⟨(hkeep x hx htarget).1, by simp⟩
  have hcounted : ∀ {sub : SubscriptionRow} {db₁ written},
      pullPrepare gaps sub.toQueueSubscription request.now db = (db₁, written) →
      Traces db written [] db₁ ∧ Ordered s db₁ [] := fun {sub} {_} {_} hprepare =>
    pullPrepare_rule (J := (Ordered s · [])) hnd (h.reclaim _ _) (fun _ => hearly)
      (fun h₁ => h₁.of_finishing fun d hd =>
        ⟨d, insertFailureCallbacks_deliveries _ _ _ ▸ hd, .refl d, id, id⟩)
      (fun h₁ => h₁.expire _ _) hprepare
  cases hcase with
  | draining => exact h
  | full sub hsub db₁ db₂ written hprepare hgap =>
    obtain ⟨ht₁, h₁⟩ := hcounted hprepare
    rw [hgap]
    exact (interleave_rule (J := (Ordered s · [])) (fun hop => hearly hop) ht₁ h₁).2
  | leasing sub hsub db₁ db₂ db₃ db' written hprepare hgap limit hpos hlimit hgap' leased hlease =>
    obtain ⟨ht₁, h₁⟩ := hcounted hprepare
    obtain ⟨ht₂, h₂⟩ := interleave_rule (J := (Ordered s · [])) (fun hop => hearly hop) ht₁ h₁
    rw [← hgap] at ht₂ h₂
    obtain ⟨ht₃, h₃⟩ := interleave_rule (J := (Ordered s · [])) (fun hop => hearly hop) ht₂ h₂
    rw [← hgap'] at ht₃ h₃
    have hselection : pullSelection gaps db request = (selectDeliveries sub.toQueueSubscription
        request.now limit.toNat db₃).map Prod.fst := by
      simp only [pullSelection, hsub, hprepare, ← hgap, hlimit, ← hgap']
    rw [hselection] at hkeeps
    refine leaseSelected_rule (J := fun rest _ db₁ => Ordered s db₁ (rest.map (·.1.id)))
      ?_ ?_ (ht₃.select rfl) (.select ht₃.ids) hlease
      (h₃.select ht₃.ids (hmode sub (findSubscription_some hsub).1) _ _)
    · intro k op rest acc db₄ hk hop ht hwait hsub h₄
      refine h₄.apply ht ?_ (.inl hk) (hkeeps k op hop)
      rw [map_map]
      exact map_subset _ hsub
    · intro item e rest receipt acc db₄ ht hwait hmem h₄
      refine h₄.lease D _ receipt fun d hd hid => (ht.chosen d hd ?_).2
      rw [hid, map_map]
      exact mem_map_of_mem hmem

theorem Ordered.enqueue {rows : List DeliveryRow} (h : Ordered s db []) (hrows : Enqueues rows db db')
    (hplace : ∀ x ∈ rows, ∀ y ∈ db.deliveries, SameKey s x y → y.isInFlight = true →
      x.precedes y = false) : Ordered s db' [] := by
  refine h.step (.refl _) fun d hd => ?_
  rcases hrows.mem_cases hd with hd | hd
  · exact .old d hd (.refl d) id .inl
  refine .entering (isInFlight_of_available (hrows.new d hd).status) (by simp) fun y hy hkey hflight => ?_
  rcases hflight with hflight | hin
  · exact hplace d hd y hy hkey hflight
  · cases hin

theorem Ordered.sameWork (h : Ordered s db []) (hw : SameWork db db') : Ordered s db' [] :=
  h.of_finishing fun d hd => ⟨d, hw.deliveries ▸ hd, .refl d, id, id⟩

/-- **One operation keeps the order** when it makes nothing available before a delivery of its key
that is in flight. -/
theorem exec_ordered (hnd : db.Keyed) (h : Ordered s db [])
    (hmode : ∀ x ∈ db.subscriptions, x.id = s → x.orderingMode = .key) {op : QueueOp}
    (hkeeps : KeepsKeyOrder D s db op) : Ordered s ((queue D).next db op) [] := by
  have hcase := exec_cases D db op
  generalize (queue D).out db op = out, (queue D).next db op = db' at hcase ⊢
  cases hcase with
  | control hgrants hsame => exact h.sameWork hsame
  | publish rows hrows hsub | complete rows hrows hsub => exact h.enqueue hrows fun x hx => hkeeps x (hsub hx)
  | settle sub hsub next availableAt d => exact h.settle D _ _ next availableAt _ d
  | extend => exact h.extend D _ _ _ _
  | pull hcase => exact hcase.ordered hnd h hmode hkeeps
  | replay =>
    refine h.replay _ _ _ _ fun d hd htarget => ⟨by simp, fun y hy hkey hflight => ?_⟩
    rcases hflight with hflight | hin
    · exact hkeeps d (mem_filter.mpr ⟨hd, htarget⟩) y hy hkey hflight
    · cases hin
  | delete => exact h.delete _ _ _

end Operations

/-- **Ordering-key exclusivity.** In a run through which the subscription keeps `ordering_mode='key'`
and no step makes a delivery available before one of its key that is in flight, at most one delivery
of a key is in flight, in every state. -/
theorem key_exclusive (D : Digests) (ops : List QueueOp) (s : String)
    (hmode : ∀ t ∈ (queue D).transitions {} ops, ∀ x ∈ t.pre.subscriptions, x.id = s → x.orderingMode = .key)
    (hkeeps : ∀ t ∈ (queue D).transitions {} ops, KeepsKeyOrder D s t.pre t.input) :
    ∀ x ∈ (reach D ops).deliveries, ∀ y ∈ (reach D ops).deliveries, SameKey s x y →
      x.isInFlight = true → y.isInFlight = true → x = y := by
  have hordered : Ordered s (reach D ops) [] := by
    induction ops using reverseRecOn with
    | nil => exact fun x hx => by cases hx
    | append_singleton ops op ih =>
      simp only [Mealy.transitions_concat, mem_append, mem_singleton] at hmode hkeeps
      rw [reach_concat]
      exact exec_ordered (reach_ids_nodup D ops)
        (ih (fun t ht => hmode t (.inl ht)) fun t ht => hkeeps t (.inl ht))
        (hmode _ (.inr rfl)) (hkeeps _ (.inr rfl))
  intro x hx y hy hkey hxf hyf
  exact hordered.exclusive (reach_ids_nodup D ops) hx hy hkey hxf hyf

/-! ## Two runs -/

def keyedSubscription : QueueSubscription := { sampleSubscription with orderingMode := .key }

def keyedPublication (eventId : String) (createdAt : Int) : QueueOp :=
  .publish { samplePublication eventId createdAt with queueOrderingKey := some "k" }

/-- The first delivery of a key is dead-lettered, the second leased; then the first is replayed. It
stands before the second, so the next pull leases it too. -/
def replayedKeyRun : List QueueOp :=
  [.createSubscription keyedSubscription, keyedPublication "evt_1" 0, samplePull second ["qrc_1"],
    sampleSettle "qrc_1" .deadLetter (2 * second), keyedPublication "evt_2" (3 * second),
    samplePull (4 * second) ["qrc_2"],
    .replay "app_1" "qsub_1" ["qdl_e334738e77c1801e09b19d74af8d6104"] (5 * second),
    samplePull (6 * second) ["qrc_3"]]

theorem key_shared_after_replay :
    (∀ t ∈ (queue sampleDigests).transitions {} replayedKeyRun, ∀ x ∈ t.pre.subscriptions,
      x.id = "qsub_1" → x.orderingMode = .key) ∧
    ∃ x ∈ (reach sampleDigests replayedKeyRun).deliveries,
      ∃ y ∈ (reach sampleDigests replayedKeyRun).deliveries, SameKey "qsub_1" x y ∧
        x.isInFlight = true ∧ y.isInFlight = true ∧ x.id ≠ y.id := by
  decide

/-- The first delivery of a key in flight, and a pull while the second waits. -/
def waitingKeyRun : List QueueOp :=
  [.createSubscription keyedSubscription, keyedPublication "evt_1" 0, samplePull second ["qrc_1"],
    keyedPublication "evt_2" (3 * second), samplePull (4 * second) ["qrc_2"]]

theorem key_exclusive_waiting : (reach sampleDigests waitingKeyRun).deliveries.length = 2 ∧
    ∀ x ∈ (reach sampleDigests waitingKeyRun).deliveries,
      ∀ y ∈ (reach sampleDigests waitingKeyRun).deliveries, SameKey "qsub_1" x y →
        x.isInFlight = true → y.isInFlight = true → x = y := by
  refine ⟨by decide, key_exclusive sampleDigests waitingKeyRun "qsub_1" (by decide) ?_⟩
  simp only [waitingKeyRun, Mealy.transitions, forall_mem_cons]
  refine ⟨by unfold KeepsKeyOrder; decide, by unfold KeepsKeyOrder keyedPublication; decide, ?_,
    by unfold KeepsKeyOrder keyedPublication; decide, ?_, by simp⟩
  all_goals exact fun k op hop => by cases hop

end RelayHub.Queue
