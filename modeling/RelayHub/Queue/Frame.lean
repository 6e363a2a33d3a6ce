import RelayHub.Queue.Effects

/-! # RelayHub queue — which operation writes which table

Pulls, settlements, extensions, replays and deletes touch deliveries, their history and their callbacks,
and nothing else (`Effect.sameTables`). The other operations are told apart by what they write:
subscriptions, schedules with their occurrences, or deduplication keys. `exec_frame` says that every other
operation leaves those tables as they were. -/

namespace RelayHub.Queue

open List Table

/-- The tables that only configuration and publishing write. -/
structure SameTables (db db' : QueueDb) : Prop where
  subscriptions : db'.subscriptions = db.subscriptions
  dedupKeys : db'.dedupKeys = db.dedupKeys
  schedules : db'.schedules = db.schedules
  occurrences : db'.occurrences = db.occurrences

theorem SameTables.refl (db : QueueDb) : SameTables db db := ⟨rfl, rfl, rfl, rfl⟩

theorem SameTables.trans {db₁ db₂ db₃ : QueueDb} (h : SameTables db₁ db₂) (h' : SameTables db₂ db₃) :
    SameTables db₁ db₃ where
  subscriptions := h'.subscriptions.trans h.subscriptions
  dedupKeys := h'.dedupKeys.trans h.dedupKeys
  schedules := h'.schedules.trans h.schedules
  occurrences := h'.occurrences.trans h.occurrences

variable {db db' : QueueDb} {D : Digests} {gs : List Grant} {gaps : Nat → List DeadLetterOp}
  {leased : List QueueDelivery}

theorem Effect.sameTables (h : Effect D db gs db') : SameTables db db' := by
  cases h with
  | failureCallbacks =>
    unfold insertFailureCallbacks
    split <;> exact ⟨rfl, rfl, rfl, rfl⟩
  | _ => exact ⟨rfl, rfl, rfl, rfl⟩

theorem Effects.sameTables (h : Effects D db gs db') : SameTables db db' := by
  induction h with
  | refl db => exact .refl db
  | step h _ ih => exact h.sameTables.trans ih

/-- Interleaved replays and deletes, and the statements of a pull before it selects. -/
theorem interleave_sameTables (locked : List String) (ops : List DeadLetterOp) (db : QueueDb) :
    SameTables db (interleave locked ops db) :=
  (interleave_effects (D := ⟨id, id, fun _ _ => ""⟩) locked ops db).sameTables

theorem leaseSelected_sameTables {locked : List String} {terms : LeaseTerms} {k : Nat}
    {selected : List (DeliveryRow × EventRow)} {receipts : List String}
    (h : leaseSelected D gaps locked terms k selected receipts db = .ok (leased, db')) : SameTables db db' :=
  leaseSelected_induction (I := fun _ _ _ db₁ => SameTables db db₁)
    (fun hI => hI.trans ((interleave_sameTables locked _ _).trans ⟨rfl, rfl, rfl, rfl⟩)) [] h
    (.refl db)

theorem PullCase.sameTables {request : QueuePullRequest} (h : PullCase D gaps db request leased db') :
    SameTables db db' := by
  have hprep : ∀ {sub db₁ written}, db.findSubscription request.appId request.subscriptionId = some sub →
      pullPrepare gaps sub.toQueueSubscription request.now db = (db₁, written) → SameTables db db₁ := by
    intro sub db₁ written hsub hprepare
    have heffects := pullPrepare_effects (D := D) gaps request.now (findSubscription_some hsub).1
    rw [hprepare] at heffects
    exact heffects.sameTables
  cases h with
  | draining => exact .refl db
  | full sub hsub db₁ db₂ written hprepare hgap =>
    rw [hgap]
    exact (hprep hsub hprepare).trans (interleave_sameTables _ _ _)
  | leasing sub hsub db₁ db₂ db₃ _ written hprepare hgap limit _ _ hgap' _ hlease =>
    refine ((hprep hsub hprepare).trans ?_).trans (leaseSelected_sameTables hlease)
    rw [hgap', hgap]
    exact (interleave_sameTables _ _ _).trans (interleave_sameTables _ _ _)

/-! ## The operations by table -/

def QueueOp.writesSubscriptions : QueueOp → Bool
  | .createSubscription .. | .updateSubscription .. | .beginDrain .. | .getDrain .. => true
  | _ => false

def QueueOp.writesSchedules : QueueOp → Bool
  | .createSchedule .. | .updateSchedule .. | .claimSchedules .. | .completeSchedule .. => true
  | _ => false

def QueueOp.writesKeys : QueueOp → Bool
  | .publish .. => true
  | _ => false

/-- The operation may insert deliveries. -/
def QueueOp.inserts : QueueOp → Bool
  | .publish .. | .completeSchedule .. => true
  | _ => false

/-- A property of the tables that a transaction keeps when it succeeds, its commit or its rollback
keeps. -/
theorem commitDone_kept {P : QueueDb → Prop} {result : Except StoreError QueueDb} (h0 : P db)
    (h : ∀ db', result = .ok db' → P db') : P (commitDone db result).2 := by
  cases result with
  | error => exact h0
  | ok db' => exact h db' rfl

theorem commit_kept {α : Type} {P : QueueDb → Prop} {out : α → QueueOut} {result : Except StoreError (α × QueueDb)}
    (h0 : P db) (h : ∀ a db', result = .ok (a, db') → P db') : P (commit out db result).2 := by
  cases result with
  | error => exact h0
  | ok r => exact h r.1 r.2 rfl

section Control

variable {db db' : QueueDb}

theorem completeQueueSchedule_frame {c : QueueScheduleCompletion} (h : completeQueueSchedule c db = .ok db') :
    db'.subscriptions = db.subscriptions ∧ db'.dedupKeys = db.dedupKeys := by
  obtain ⟨q, sub, db₁, -, -, -, ⟨-, rfl⟩ | ⟨-, hins⟩, rfl⟩ := completeQueueSchedule_inv h
  · exact ⟨rfl, rfl⟩
  · obtain ⟨deliveries, -, rfl⟩ := insertOccurrence_ok hins
    exact ⟨rfl, rfl⟩

theorem publishQueue_frame {p : QueuePublication} (h : publishQueue D p db = .ok db') :
    ∃ events deliveries dedupKeys, db' = { db with events, deliveries, dedupKeys } := by
  unfold publishQueue at h
  split at h
  · cases h
  split at h
  · cases h
  dsimp only at h
  split at h
  · cases h
  · cases h
    unfold insertDedupKeys dropExpiredDedupKeys
    split <;> exact ⟨_, _, _, rfl⟩

end Control

/-- What `op` leaves as it was. -/
structure Frame (op : QueueOp) (db db' : QueueDb) : Prop where
  subscriptions : op.writesSubscriptions = false → db'.subscriptions = db.subscriptions
  schedules : op.writesSchedules = false → db'.schedules = db.schedules
  occurrences : op.writesSchedules = false → db'.occurrences = db.occurrences
  dedupKeys : op.writesKeys = false → db'.dedupKeys = db.dedupKeys
  /-- Configuring a subscription touches none of its deliveries. -/
  deliveries : op.writesSubscriptions = true → db'.deliveries = db.deliveries

theorem Frame.refl (op : QueueOp) (db : QueueDb) : Frame op db db :=
  ⟨fun _ => rfl, fun _ => rfl, fun _ => rfl, fun _ => rfl, fun _ => rfl⟩

theorem SameTables.frame {op : QueueOp} (h : SameTables db db') (hop : op.writesSubscriptions = false) :
    Frame op db db' :=
  ⟨fun _ => h.subscriptions, fun _ => h.schedules, fun _ => h.occurrences, fun _ => h.dedupKeys,
    fun hwrites => absurd hwrites (by rw [hop]; exact Bool.false_ne_true)⟩

theorem Configured.frame {op : QueueOp} (h : Configured db db') (hop : op.writesSubscriptions = true) :
    Frame op db db' := by
  obtain ⟨_, rfl⟩ := h.rest
  exact ⟨fun hnot => absurd hop (by rw [hnot]; exact Bool.false_ne_true), fun _ => rfl, fun _ => rfl, fun _ => rfl,
    fun _ => rfl⟩

/-- **Who writes what.** -/
theorem exec_frame (D : Digests) (db : QueueDb) (op : QueueOp) : Frame op db ((queue D).next db op) := by
  have hrefl := Frame.refl op db
  show Frame op db (exec D db op).2
  cases op with
  | createSubscription =>
    exact commitDone_kept hrefl fun db' h => (createQueueSubscription_configured h).frame rfl
  | updateSubscription =>
    exact commit_kept hrefl fun _ db' h => (updateQueueSubscription_configured h).frame rfl
  | beginDrain appId subscriptionId startedAt deadlineAt =>
    have hexec : (exec D db (.beginDrain appId subscriptionId startedAt deadlineAt)).2
        = (beginQueueDrain appId subscriptionId startedAt deadlineAt db).2 := by
      rw [exec]
      split <;> simp_all
    rw [hexec]
    exact (beginQueueDrain_configured appId subscriptionId startedAt deadlineAt db).frame rfl
  | getDrain =>
    exact commit_kept hrefl fun _ db' h => (getQueueDrain_configured h).frame rfl
  | createSchedule =>
    refine commitDone_kept hrefl fun db' h => ?_
    obtain ⟨_, _, _, _, rfl⟩ := createQueueSchedule_ok h
    exact ⟨fun _ => rfl, (absurd · Bool.noConfusion), fun _ => rfl, fun _ => rfl, fun _ => rfl⟩
  | updateSchedule =>
    refine commitDone_kept hrefl fun db' h => ?_
    obtain ⟨_, _, _, rfl⟩ := updateQueueSchedule_ok h
    exact ⟨fun _ => rfl, (absurd · Bool.noConfusion), fun _ => rfl, fun _ => rfl, fun _ => rfl⟩
  | claimSchedules =>
    exact ⟨fun _ => rfl, (absurd · Bool.noConfusion), fun _ => rfl, fun _ => rfl, fun _ => rfl⟩
  | completeSchedule =>
    refine commitDone_kept hrefl fun db' h => ?_
    obtain ⟨hsubs, hkeys⟩ := completeQueueSchedule_frame h
    exact ⟨fun _ => hsubs, (absurd · Bool.noConfusion), (absurd · Bool.noConfusion), fun _ => hkeys,
      (absurd · Bool.false_ne_true)⟩
  | publish =>
    refine commitDone_kept hrefl fun db' h => ?_
    obtain ⟨events, deliveries, dedupKeys, rfl⟩ := publishQueue_frame h
    exact ⟨fun _ => rfl, fun _ => rfl, fun _ => rfl, (absurd · Bool.noConfusion), (absurd · Bool.false_ne_true)⟩
  | pull =>
    exact commit_kept hrefl fun _ _ h => (pullQueueDeliveries_cases h).sameTables.frame rfl
  | settle =>
    refine commit_kept hrefl fun _ db' h => ?_
    obtain ⟨sub, hsub, hcase⟩ := settleStep_cases h
    cases hcase with
    | invalid => exact hrefl
    | settled =>
      exact SameTables.frame ⟨rfl, rfl, rfl, rfl⟩ rfl
  | extend =>
    refine commit_kept hrefl fun status db' h => ?_
    obtain ⟨rfl, rfl⟩ := Prod.mk.inj (extendStep_ok h)
    exact SameTables.frame ⟨rfl, rfl, rfl, rfl⟩ rfl
  | replay | delete => exact SameTables.frame ⟨rfl, rfl, rfl, rfl⟩ rfl

/-! ## Where deliveries come from -/

theorem Effects.mem_same (h : Effects D db gs db') {d' : DeliveryRow} (hd' : d' ∈ db'.deliveries) :
    ∃ d ∈ db.deliveries, SameDelivery d d' := by
  induction h with
  | refl => exact ⟨d', hd', .refl d'⟩
  | step hstep _ ih =>
    obtain ⟨d₁, hd₁, hsame⟩ := ih hd'
    obtain ⟨d, hd, hsame'⟩ := hstep.mem_same hd₁
    exact ⟨d, hd, hsame'.trans hsame⟩

/-- **A delivery is stored already, or a publication or an occurrence inserts it.** -/
theorem exec_mem (hnd : db.Keyed) (op : QueueOp) {d' : DeliveryRow} (hd' : d' ∈ ((queue D).next db op).deliveries) :
    (∃ d ∈ db.deliveries, SameDelivery d d') ∨ op.inserts = true ∧ d' ∈ entering D db op := by
  have hcase := exec_cases D db op
  generalize (queue D).out db op = out, (queue D).next db op = db' at hcase hd'
  have hold : ∀ {gs}, Effects D db gs db' → ∃ d ∈ db.deliveries, SameDelivery d d' :=
    fun h => h.mem_same hd'
  have hinsert : ∀ {rows}, Enqueues rows db db' → rows ⊆ entering D db op → op.inserts = true →
      (∃ d ∈ db.deliveries, SameDelivery d d') ∨ op.inserts = true ∧ d' ∈ entering D db op := by
    intro rows hrows hsub hop
    rcases hrows.mem_cases hd' with hd' | hd'
    · exact .inl ⟨d', hd', .refl d'⟩
    · exact .inr ⟨hop, hsub hd'⟩
  cases hcase with
  | control _ hw => exact .inl ⟨d', hw.deliveries ▸ hd', .refl d'⟩
  | publish rows hrows hsub | complete rows hrows hsub => exact hinsert hrows hsub rfl
  | settle sub hsub next availableAt d hfind =>
    exact .inl (hold (.single (.settle sub (findSubscription_some hsub).1 _ next availableAt _ d hfind)))
  | extend => exact .inl (hold (.single (.extend _ _ _ _)))
  | pull hpull => exact .inl (hold (hpull.effects hnd))
  | replay => exact .inl (hold (.single (.replay _ _ _ _)))
  | delete => exact .inl (hold (.single (.delete _ _ _)))

/-! ## Calls of several items -/

section Batches

variable {D : Digests} {appId subscriptionId : String} {now : Int} {results : List QueueSettlementResult}

/-- A call of `SettleQueueDeliveries` that commits is a run of its items, in order. -/
theorem settleQueueDeliveries_run {settlements : List QueueSettlement}
    (h : settleQueueDeliveries D db appId subscriptionId settlements now = .ok (results, db')) :
    (queue D).run db (settlements.map (.settle appId subscriptionId · now)) = db' ∧
      ((queue D).transitions db (settlements.map (.settle appId subscriptionId · now))).map (·.output)
        = results.map (.settled ·.status) := by
  unfold settleQueueDeliveries at h
  split at h
  · cases h
  next sub hsub =>
  induction settlements generalizing db results with
  | nil =>
    cases h
    exact ⟨rfl, rfl⟩
  | cons settlement rest ih =>
    rw [settleAll] at h
    split at h
    · cases h
    next status db₁ hitem =>
    split at h
    · cases h
    next hrest =>
    cases h
    have hexec : (queue D).exec db (.settle appId subscriptionId settlement now) = (.settled status, db₁) := by
      show commit .settled db (settleStep D appId subscriptionId settlement now db) = _
      simp only [settleStep, hsub, hitem, commit]
    have hnext : (queue D).next db (.settle appId subscriptionId settlement now) = db₁ :=
      congrArg Prod.snd hexec
    -- an item leaves the subscription as it was, so the next one settles under the same row
    have hsub₁ : db₁.findSubscription appId subscriptionId = some sub := by
      rw [← hnext, QueueDb.findSubscription, (exec_frame D db _).subscriptions rfl]
      exact hsub
    obtain ⟨hrun, houts⟩ := ih hsub₁ hrest
    refine ⟨?_, ?_⟩
    · rw [map_cons, Mealy.run_cons, hnext, hrun]
    · rw [map_cons, Mealy.transitions, map_cons, hnext, houts]
      exact congrArg (· :: _) (congrArg Prod.fst hexec)

theorem settleQueueDeliveries_run_repeated :
    ((queue sampleDigests).transitions (reach sampleDigests [.createSubscription
    sampleSubscription, .publish (samplePublication "evt_1" 0), samplePull second ["qrc_1"]])
      ([⟨"qrc_1", .ack, 0, ""⟩, ⟨"qrc_1", .ack, 0, ""⟩].map (.settle "app_1" "qsub_1" · second))).map (·.output) =
    [(⟨"qrc_1", .acked⟩ : QueueSettlementResult), ⟨"qrc_1", .invalidReceipt⟩].map (.settled ·.status) :=
  (settleQueueDeliveries_run rfl).2

end Batches

end RelayHub.Queue
