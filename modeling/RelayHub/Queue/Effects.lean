import RelayHub.Queue.System

/-! # RelayHub queue — what an operation can do

An operation leaves the queued work alone, enqueues new deliveries, or is a sequence of *effects* on
the stored ones: the atomic writes of the store, each with the guard under which it is issued.
`exec_cases` says so operation by operation and `exec_operation` for all at once; an invariant of the
queue is then proved effect by effect.

An effect lists the leases it grants (`Grant`), so that the outputs of the pulls and the changes of
the tables stay tied together: the grants of an operation are exactly the deliveries its pull
returns. -/

namespace RelayHub.Queue

open List Table DeliveryRow ScheduleRow

/-! ## Small facts -/

variable {db : QueueDb} {appId : String}

theorem findSubscription_some {id : String} {s : SubscriptionRow} (h : db.findSubscription appId id = some s) :
    s ∈ db.subscriptions ∧ s.appId = appId ∧ s.id = id := by
  have hp := find?_some h
  simp only [Bool.and_eq_true, decide_eq_true_eq] at hp
  exact ⟨mem_of_find?_eq_some h, hp.1, hp.2⟩

variable {d : DeliveryRow}

theorem isAvailable_iff : d.isAvailable = true ↔ d.status = .available := by
  simp [isAvailable]

theorem isDeadLetter_iff : d.isDeadLetter = true ↔ d.status = .deadLetter := by
  simp [isDeadLetter]

theorem isInFlight_iff : d.isInFlight = true ↔ ∃ l, d.status = .inFlight l := by
  unfold isInFlight lease?
  cases d.status <;> simp

theorem isInFlight_of_available (h : d.status = .available) : d.isInFlight = false := by
  rw [isInFlight, lease?, h]
  rfl

/-! ## Effects -/

/-- A lease granted by a pull. -/
structure Grant where
  deliveryId : String
  generation : Nat
  attempt : Nat
  receipt : String
  deriving DecidableEq

def QueueDelivery.grant (d : QueueDelivery) : Grant :=
  { deliveryId := d.id
    generation := d.generation
    attempt := d.attempt
    receipt := d.receipt }

/-- The leases an output reports. -/
def QueueOut.grants : QueueOut → List Grant
  | .pulled deliveries => deliveries.map QueueDelivery.grant
  | _ => []

/-- `db'` has the deliveries, the history, the callbacks and the events of `db`. -/
structure SameWork (db db' : QueueDb) : Prop where
  deliveries : db'.deliveries = db.deliveries
  attempts : db'.attempts = db.attempts
  callbacks : db'.callbacks = db.callbacks
  events : db'.events = db.events
  subscriptionIds : (db.subscriptions.map (·.id)).Nodup → (db'.subscriptions.map (·.id)).Nodup

theorem SameWork.refl (db : QueueDb) : SameWork db db := ⟨rfl, rfl, rfl, rfl, id⟩

/-- `db'` is `db` with other subscriptions, still with unique ids. -/
structure Configured (db db' : QueueDb) : Prop where
  rest : ∃ subscriptions, db' = { db with subscriptions }
  subscriptionIds : (db.subscriptions.map (·.id)).Nodup → (db'.subscriptions.map (·.id)).Nodup

theorem Configured.refl (db : QueueDb) : Configured db db := ⟨⟨_, rfl⟩, id⟩

theorem Configured.sameWork {db' : QueueDb} (h : Configured db db') : SameWork db db' := by
  obtain ⟨⟨_, rfl⟩, hids⟩ := h
  exact ⟨rfl, rfl, rfl, rfl, hids⟩

theorem Configured.trans {db₁ db₂ db₃ : QueueDb} (h : Configured db₁ db₂) (h' : Configured db₂ db₃) :
    Configured db₁ db₃ := by
  obtain ⟨⟨_, rfl⟩, hids⟩ := h
  exact ⟨h'.rest, fun hnd => h'.subscriptionIds (hids hnd)⟩

/-- A delivery as it is inserted. -/
structure NewDelivery (d : DeliveryRow) : Prop where
  status : d.status = .available
  generation : d.generation = 1
  attempts : d.attempts = 0

/-- `db'` is `db` with the new deliveries `rows` and perhaps new events and keys. -/
structure Enqueues (rows : List DeliveryRow) (db db' : QueueDb) : Prop where
  deliveries : db'.deliveries = db.deliveries ++ rows
  attempts : db'.attempts = db.attempts
  callbacks : db'.callbacks = db.callbacks
  subscriptions : db'.subscriptions = db.subscriptions
  events : db.events ⊆ db'.events
  new : ∀ d ∈ rows, NewDelivery d
  owner : ∀ d ∈ rows, ∃ s ∈ db.subscriptions, s.id = d.subscriptionId
  event : ∀ d ∈ rows, ∃ e ∈ db'.events, e.id = d.eventId
  ids : (db.deliveries.map (·.id)).Nodup → (db'.deliveries.map (·.id)).Nodup

theorem Enqueues.mem_cases {rows : List DeliveryRow} {db db' : QueueDb} (h : Enqueues rows db db') {d : DeliveryRow}
    (hd : d ∈ db'.deliveries) : d ∈ db.deliveries ∨ d ∈ rows :=
  mem_append.mp (h.deliveries ▸ hd)

theorem Enqueues.fresh {rows : List DeliveryRow} {db db' : QueueDb} (h : Enqueues rows db db') (hnd : db.Keyed) :
    ∀ d ∈ rows, ∀ e ∈ db.deliveries, e.id ≠ d.id := by
  have hids := h.ids hnd
  rw [h.deliveries, map_append, nodup_append] at hids
  exact fun d hd e he => hids.2.2 e.id (mem_map_of_mem he) d.id (mem_map_of_mem hd)

/-- One atomic write on the stored deliveries, with the leases it grants. -/
inductive Effect (D : Digests) : QueueDb → List Grant → QueueDb → Prop where
  | reclaim {db : QueueDb} (sub : SubscriptionRow) (hsub : sub ∈ db.subscriptions) (now : Int) :
      Effect D db [] (reclaimExpired sub.toQueueSubscription now db)
  | failureCallbacks {db : QueueDb} (sub : SubscriptionRow) (now : Int) :
      Effect D db [] (insertFailureCallbacks sub.toQueueSubscription now db)
  | expire {db : QueueDb} (sub : SubscriptionRow) (now : Int) :
      Effect D db [] (expireRetained sub.toQueueSubscription now db)
  | lease {db : QueueDb} (terms : LeaseTerms) (receipt : String) (item : DeliveryRow)
      (hitem : item ∈ db.deliveries) (havailable : item.status = .available) :
      Effect D db [⟨item.id, item.generation, item.attempts + 1, receipt⟩] (leasedDb D terms receipt item db)
  | settle {db : QueueDb} (sub : SubscriptionRow) (hsub : sub ∈ db.subscriptions)
      (settlement : QueueSettlement) (next : NextStatus) (availableAt now : Int) (d : DeliveryRow)
      (hfind : db.deliveries.find? (receiptTarget D sub.appId sub.id settlement.receipt now) = some d) :
      Effect D db [] (settledDb D sub.toQueueSubscription settlement next availableAt now d db)
  | extend {db : QueueDb} (appId subscriptionId : String) (extension : QueueLeaseExtension) (now : Int) :
      Effect D db [] (extendQueueLease D appId subscriptionId extension now db).2
  | replay {db : QueueDb} (appId subscriptionId : String) (ids : List String) (now : Int) :
      Effect D db [] (replayQueueDeadLetters db appId subscriptionId ids now).2
  | delete {db : QueueDb} (appId subscriptionId : String) (ids : List String) :
      Effect D db [] (deleteQueueDeadLetters db appId subscriptionId ids).2

/-- Effects one after another. -/
inductive Effects (D : Digests) : QueueDb → List Grant → QueueDb → Prop where
  | refl (db : QueueDb) : Effects D db [] db
  | step {db db₁ db₂ : QueueDb} {gs gs' : List Grant} (h : Effect D db gs db₁)
      (rest : Effects D db₁ gs' db₂) : Effects D db (gs ++ gs') db₂

namespace Effects

variable {D : Digests} {db db₁ db₂ : QueueDb} {gs gs' : List Grant}

theorem single (h : Effect D db gs db₁) : Effects D db gs db₁ := by
  have hstep := Effects.step h (.refl db₁)
  rwa [append_nil] at hstep

theorem trans (h : Effects D db gs db₁) (h' : Effects D db₁ gs' db₂) : Effects D db (gs ++ gs') db₂ := by
  induction h with
  | refl => exact h'
  | step he _ ih =>
    rw [append_assoc]
    exact .step he (ih h')

theorem trans_nil (h : Effects D db [] db₁) (h' : Effects D db₁ gs db₂) : Effects D db gs db₂ :=
  h.trans h'

/-- **What every effect keeps, a sequence keeps**, with the leases granted so far at hand. -/
theorem induction {P : QueueDb → List Grant → Prop} (log : List Grant)
    (hstep : ∀ {db gs db' log}, Effect D db gs db' → P db log → P db' (log ++ gs))
    (h : Effects D db gs db₁) (h0 : P db log) : P db₁ (log ++ gs) := by
  induction h generalizing log with
  | refl => rwa [append_nil]
  | step he _ ih =>
    rw [← append_assoc]
    exact ih _ (hstep he h0)

end Effects

/-- What an operation does: it leaves the work alone, it enqueues, or it is a sequence of effects. -/
inductive Operation (D : Digests) : QueueDb → List Grant → QueueDb → Prop where
  | control {db db' : QueueDb} (h : SameWork db db') : Operation D db [] db'
  | enqueue {db db' : QueueDb} (rows : List DeliveryRow) (h : Enqueues rows db db') :
      Operation D db [] db'
  | effects {db db' : QueueDb} {gs : List Grant} (h : Effects D db gs db') : Operation D db gs db'

/-! ## Policies and schedules leave the work alone -/

theorem storeSubscription_configured (item : SubscriptionRow) (db : QueueDb) :
    Configured db (storeSubscription item db) := by
  have hids : (storeSubscription item db).subscriptions.map (·.id) = db.subscriptions.map (·.id) := by
    apply map_updateWhere
    intro s _ hs
    exact (of_decide_eq_true hs).symm
  refine ⟨⟨_, rfl⟩, fun hnd => ?_⟩
  rwa [hids]

variable {db' : QueueDb}

theorem createQueueSubscription_configured {item : QueueSubscription} (h : createQueueSubscription item db = .ok db') :
    Configured db db' := by
  unfold createQueueSubscription at h
  split at h
  next hcheck =>
    split at h
    · cases h
    next hnew =>
    cases h
    refine ⟨⟨_, rfl⟩, fun hnd => ?_⟩
    refine nodup_keys_concat hnd fun s hs hid => hnew (any_eq_true.mpr ⟨s, hs, ?_⟩)
    rw [decide_eq_true (p := s.id = item.id) hid, Bool.true_or]
  · cases h

theorem updateQueueSubscription_configured {item item' : QueueSubscription} {version : Int}
    (h : updateQueueSubscription item version db = .ok (item', db')) : Configured db db' := by
  unfold updateQueueSubscription at h
  split at h
  · cases h
  split at h
  · cases h
  split at h
  · split at h
    · cases h
    · cases h
      exact storeSubscription_configured _ db
  · cases h

variable {now : Int} {subscriptionId : String}

theorem getQueueDrain_configured {drain : QueueDrain}
    (h : getQueueDrain appId subscriptionId now db = .ok (drain, db')) : Configured db db' := by
  unfold getQueueDrain at h
  split at h
  · cases h
  dsimp only at h
  split at h
  · cases h
    exact .refl db
  · split at h
    · split at h
      · cases h
        exact .refl db
      · split at h
        · cases h
          exact storeSubscription_configured _ db
        · cases h
    · split at h
      · split at h <;> cases h <;> exact .refl db
      · cases h
        exact .refl db

theorem beginQueueDrain_configured (appId subscriptionId : String) (startedAt deadlineAt : Int) (db : QueueDb) :
    Configured db (beginQueueDrain appId subscriptionId startedAt deadlineAt db).2 := by
  unfold beginQueueDrain
  split
  · exact .refl db
  dsimp only
  split
  · split
    · exact storeSubscription_configured _ db
    next h => exact (storeSubscription_configured _ db).trans (getQueueDrain_configured h)
  · exact .refl db

theorem SameWork.schedules (db : QueueDb) (schedules : List ScheduleRow) :
    SameWork db { db with schedules := schedules } :=
  ⟨rfl, rfl, rfl, rfl, id⟩

theorem createQueueSchedule_ok {item : ScheduleRow} (h : createQueueSchedule item db = .ok db') :
    ∃ q : ScheduleRow, q.id = item.id ∧ q.claim = none ∧
      (∀ r ∈ db.schedules, r.id ≠ item.id) ∧ db' = { db with schedules := db.schedules ++ [q] } := by
  unfold createQueueSchedule at h
  split at h
  · cases h
  split at h
  · cases h
  split at h
  · cases h
  next hfresh =>
  cases h
  refine ⟨{ item with
    orderingKey := nullIfEmpty (item.orderingKey.getD "")
    lastRunAt := none
    claim := none
    claimGeneration := 0 }, rfl, rfl, fun r hr hid => hfresh ?_, rfl⟩
  rw [any_eq_true]
  exact ⟨r, hr, by simp [hid]⟩

theorem updateQueueSchedule_ok {item : ScheduleRow} {version : Int}
    (h : updateQueueSchedule item version db = .ok db') : ∃ target : ScheduleRow → Bool,
      (∀ q, target q = true → q.id = item.id) ∧ (∃ q ∈ db.schedules, target q = true) ∧
        db' = { db with schedules := updateWhere target (updateScheduleRow item) db.schedules } := by
  unfold updateQueueSchedule at h
  dsimp only at h
  split at h
  · split at h <;> cases h
  next hany =>
  split at h
  · cases h
  split at h
  · cases h
  cases h
  refine ⟨_, fun q hq => ?_, ?_, rfl⟩
  · simp only [sameSchedule, Bool.and_eq_true, decide_eq_true_eq] at hq
    exact hq.1.2
  · rw [Bool.not_eq_true, Bool.not_eq_false', any_eq_true] at hany
    exact hany

/-- The row of a schedule after its occurrence. -/
def advanceRow (c : QueueScheduleCompletion) (q : ScheduleRow) : ScheduleRow :=
  { q with
    lastRunAt := some c.occurrenceAt
    nextRunAt := c.nextRunAt
    claim := none
    updatedAt := c.now }

variable {c : QueueScheduleCompletion} {rows' : List DeliveryRow}

theorem advanceSchedule_ok (h : advanceSchedule c db = .ok db') :
    db' = { db with schedules := updateWhere (claimedBy c) (advanceRow c) db.schedules } := by
  unfold advanceSchedule at h
  split at h
  · cases h
    rfl
  · cases h

/-! ## Publications and occurrences enqueue -/

/-- An insert of a delivery adds it or nothing, and keeps the ids unique. -/
theorem insertDelivery_ok {rows : List DeliveryRow} {row : DeliveryRow} (h : insertDelivery rows row = .ok rows') :
    ∃ new, rows' = rows ++ new ∧ (∀ d ∈ new, d = row) ∧ ((rows.map (·.id)).Nodup → (rows'.map (·.id)).Nodup) := by
  unfold insertDelivery at h
  split at h
  · cases h
    exact ⟨[], by simp, by simp, id⟩
  · split at h
    · cases h
    next hfresh =>
    cases h
    refine ⟨[row], rfl, by simp, fun hnd => ?_⟩
    exact nodup_keys_concat hnd fun d hd hid => hfresh (any_eq_true.mpr ⟨d, hd, by simpa using hid⟩)

theorem insertDeliveries_ok {rows new : List DeliveryRow} (h : insertDeliveries rows new = .ok rows') :
    ∃ ins, rows' = rows ++ ins ∧ ins ⊆ new ∧ ((rows.map (·.id)).Nodup → (rows'.map (·.id)).Nodup) := by
  induction new generalizing rows with
  | nil =>
    cases h
    exact ⟨[], by simp, by simp, id⟩
  | cons row rest ih =>
    unfold insertDeliveries at h
    split at h
    · cases h
    next hrow =>
    obtain ⟨new₁, rfl, hnew₁, hnd₁⟩ := insertDelivery_ok hrow
    obtain ⟨ins, rfl, hins, hnd⟩ := ih h
    refine ⟨new₁ ++ ins, by simp, ?_, fun h0 => hnd (hnd₁ h0)⟩
    intro d hd
    rcases mem_append.mp hd with hd | hd
    · rw [hnew₁ d hd]
      exact mem_cons_self
    · exact mem_cons_of_mem _ (hins hd)

variable {D : Digests} {gs : List Grant} (p : QueuePublication)

theorem dropExpiredDedupKeys_eq (db : QueueDb) : ∃ dedupKeys, dropExpiredDedupKeys p db = { db with dedupKeys } := by
  unfold dropExpiredDedupKeys
  split <;> exact ⟨_, rfl⟩

theorem insertDedupKeys_eq (db : QueueDb) : ∃ dedupKeys, insertDedupKeys p db = { db with dedupKeys } := by
  unfold insertDedupKeys
  split <;> exact ⟨_, rfl⟩

theorem publishQueue_enqueues {p : QueuePublication} (h : publishQueue D p db = .ok db') :
    ∃ rows, Enqueues rows db db' ∧ rows ⊆ publishedDeliveries D p (dropExpiredDedupKeys p
      { db with events := db.events ++ [publishedEvent p] }) := by
  unfold publishQueue at h
  split at h
  · cases h
  split at h
  · cases h
  dsimp only at h
  split at h
  · cases h
  next deliveries hins =>
  cases h
  obtain ⟨ins, rfl, hsub, hnd⟩ := insertDeliveries_ok hins
  -- the deduplication statements write only `queue_deduplication_keys`
  obtain ⟨keys, hdrop⟩ := dropExpiredDedupKeys_eq p { db with events := db.events ++ [publishedEvent p] }
  rw [hdrop] at hsub hnd ⊢
  obtain ⟨keys', hkeys⟩ := insertDedupKeys_eq p
    { db with events := db.events ++ [publishedEvent p], dedupKeys := keys, deliveries := db.deliveries ++ ins }
  rw [hkeys]
  have hrow : ∀ d ∈ ins, ∃ s ∈ db.subscriptions, d = publishedDelivery D p s.toQueueSubscription := by
    intro d hd
    obtain ⟨s, hs, rfl⟩ := mem_map.mp (hsub hd)
    exact ⟨s, mem_of_mem_filter hs, rfl⟩
  refine ⟨ins, ⟨rfl, rfl, rfl, rfl, subset_append_left _ _, ?_, ?_, ?_, hnd⟩, hsub⟩
  · intro d hd
    obtain ⟨s, -, rfl⟩ := hrow d hd
    exact ⟨rfl, rfl, rfl⟩
  · intro d hd
    obtain ⟨s, hs, rfl⟩ := hrow d hd
    exact ⟨s, hs, rfl⟩
  · intro d hd
    obtain ⟨s, -, rfl⟩ := hrow d hd
    exact ⟨publishedEvent p, by simp, rfl⟩

theorem insertOccurrence_ok {q : ScheduleRow} {expiresAt : Int} (h : insertOccurrence c q expiresAt db = .ok db') :
    ∃ deliveries, insertDelivery db.deliveries (scheduledDelivery c q expiresAt) = .ok deliveries ∧ db' = { db with
        events := insertIgnore EventRow.id db.events (scheduledEvent c q expiresAt)
        deliveries := deliveries
        occurrences := db.occurrences ++ [⟨q.id, c.occurrenceAt, c.eventId, c.now⟩] } := by
  unfold insertOccurrence at h
  split at h
  · cases h
  next deliveries hins =>
  split at h
  · cases h
  · cases h
    exact ⟨deliveries, hins, rfl⟩

theorem insertOccurrence_enqueues {q : ScheduleRow} {expiresAt : Int}
    (hown : ∃ s ∈ db.subscriptions, s.id = q.subscriptionId) (h : insertOccurrence c q expiresAt db = .ok db') :
    ∃ rows, Enqueues rows db db' ∧ ∀ d ∈ rows, d = scheduledDelivery c q expiresAt := by
  obtain ⟨deliveries, hins, rfl⟩ := insertOccurrence_ok h
  obtain ⟨new, rfl, hnew, hnd⟩ := insertDelivery_ok hins
  refine ⟨new, ⟨rfl, rfl, rfl, rfl, fun e he => mem_insertIgnore_of_mem he, ?_, ?_, ?_, hnd⟩, hnew⟩
  · intro d hd
    rw [hnew d hd]
    exact ⟨rfl, rfl, rfl⟩
  · intro d hd
    rw [hnew d hd]
    exact hown
  · intro d hd
    rw [hnew d hd]
    -- the event is there: it was stored before, or the insert added it
    unfold insertIgnore
    split
    next hany =>
      obtain ⟨e, he, hid⟩ := any_eq_true.mp hany
      exact ⟨e, he, of_decide_eq_true hid⟩
    · exact ⟨scheduledEvent c q expiresAt, by simp, rfl⟩

/-- An accepted completion: the claimed schedule `q` is due, its occurrence is inserted unless it is
there already, and the schedule moves on. -/
theorem completeQueueSchedule_inv (h : completeQueueSchedule c db = .ok db') :
    ∃ q sub db₁, db.schedules.find? (claimedBy c) = some q ∧
      db.findSubscription q.appId q.subscriptionId = some sub ∧ q.nextRunAt = c.occurrenceAt ∧
      ((db.occurrences.any fun o => o.scheduleId = q.id && o.scheduledAt = c.occurrenceAt) = true ∧ db₁ = db ∨
        (db.occurrences.any fun o => o.scheduleId = q.id && o.scheduledAt = c.occurrenceAt) = false ∧
          insertOccurrence c q (c.occurrenceAt + sub.retentionSeconds * second) db = .ok db₁) ∧
      db' = { db₁ with
        schedules := updateWhere (claimedBy c) (advanceRow c) db₁.schedules } := by
  unfold completeQueueSchedule at h
  split at h
  · cases h
  next q hq =>
  split at h
  · cases h
  next sub hsub =>
  split at h
  · cases h
  next hrun =>
  split at h
  next hany => exact ⟨q, sub, db, hq, hsub, not_not.mp hrun, .inl ⟨hany, rfl⟩, advanceSchedule_ok h⟩
  next hfresh =>
  split at h
  · cases h
  next db₁ hins =>
    exact ⟨q, sub, db₁, hq, hsub, not_not.mp hrun, .inr ⟨by simpa using hfresh, hins⟩, advanceSchedule_ok h⟩

/-- A completion moves the schedule on, and enqueues the delivery of its occurrence unless the
occurrence is already there. -/
theorem completeQueueSchedule_cases (h : completeQueueSchedule c db = .ok db') :
    SameWork db db' ∨ ∃ q sub rows, db.schedules.find? (claimedBy c) = some q ∧
      db.findSubscription q.appId q.subscriptionId = some sub ∧ q.nextRunAt = c.occurrenceAt ∧
      (db.occurrences.any fun o => o.scheduleId = q.id && o.scheduledAt = c.occurrenceAt) = false ∧
      Enqueues rows db db' ∧
      ∀ d ∈ rows, d = scheduledDelivery c q (c.occurrenceAt + sub.retentionSeconds * second) := by
  obtain ⟨q, sub, db₁, hq, hsub, hrun, ⟨-, rfl⟩ | ⟨hfresh, hins⟩, rfl⟩ := completeQueueSchedule_inv h
  · exact .inl (.schedules _ _)
  obtain ⟨hmem, -, hid⟩ := findSubscription_some hsub
  obtain ⟨rows, hrows, hrow⟩ := insertOccurrence_enqueues ⟨sub, hmem, hid⟩ hins
  exact .inr ⟨q, sub, rows, hq, hsub, hrun, hfresh, { hrows with }, hrow⟩

/-- The deliveries an operation is about to make available. -/
def entering (D : Digests) (db : QueueDb) : QueueOp → List DeliveryRow
  | .publish p =>
    if db.events.any fun e => e.id = p.eventId then [] else publishedDeliveries D p db
  | .completeSchedule scheduleId claimToken claimGeneration occurrenceAt nextRunAt now =>
    let c := occurrenceCompletion D scheduleId claimToken claimGeneration occurrenceAt nextRunAt now
    match db.schedules.find? (ScheduleRow.claimedBy c) with
    | none => []
    | some q =>
      match db.findSubscription q.appId q.subscriptionId with
      | none => []
      | some sub =>
        if q.nextRunAt ≠ c.occurrenceAt then []
        else if db.occurrences.any fun o => o.scheduleId = q.id && o.scheduledAt = c.occurrenceAt then
          []
        else [scheduledDelivery c q (c.occurrenceAt + sub.retentionSeconds * second)]
  | .replay appId subscriptionId ids _ =>
    db.deliveries.filter (deadLetterTarget db appId subscriptionId ids)
  | _ => []

/-- Dropping expired deduplication keys lets nothing more through: they no longer count. -/
theorem publishes_dropExpiredDedupKeys (db : QueueDb) (sub : QueueSubscription) :
    publishes p (dropExpiredDedupKeys p db) sub = publishes p db sub := by
  have hkeys : ((dropExpiredDedupKeys p db).dedupKeys.any fun k => k.subscriptionId = sub.id &&
      k.keyHash = p.queueDedupHash && decide (p.createdAt < k.expiresAt)) =
      (db.dedupKeys.any fun k => k.subscriptionId = sub.id && k.keyHash = p.queueDedupHash &&
        decide (p.createdAt < k.expiresAt)) := by
    unfold dropExpiredDedupKeys
    split
    · rfl
    rw [any_filter]
    congr 1
    funext k
    by_cases hlive : p.createdAt < k.expiresAt
    · simp [not_le.mpr hlive]
    · simp [hlive]
  unfold publishes
  rw [hkeys]

theorem publishQueue_entering {p : QueuePublication} (h : publishQueue D p db = .ok db') :
    ∃ rows, Enqueues rows db db' ∧ rows ⊆ entering D db (.publish p) := by
  obtain ⟨rows, hrows, hsub⟩ := publishQueue_enqueues h
  have hfresh : ¬ (db.events.any fun e => e.id = p.eventId) = true := by
    intro htaken
    rw [publishQueue, if_pos htaken] at h
    cases h
  obtain ⟨keys, hdrop⟩ := dropExpiredDedupKeys_eq p { db with events := db.events ++ [publishedEvent p] }
  have hrow : publishedDeliveries D p (dropExpiredDedupKeys p { db with events := db.events ++ [publishedEvent p] })
        = publishedDeliveries D p db := by
    unfold publishedDeliveries
    simp only [publishes_dropExpiredDedupKeys]
    rw [hdrop]
    rfl
  refine ⟨rows, hrows, ?_⟩
  rwa [entering, if_neg hfresh, ← hrow]

theorem completeQueueSchedule_entering {scheduleId claimToken : String} {claimGeneration : Nat}
    {occurrenceAt nextRunAt : Int}
    (h : completeQueueSchedule (occurrenceCompletion D scheduleId claimToken claimGeneration
      occurrenceAt nextRunAt now) db = .ok db') :
    SameWork db db' ∨ ∃ rows, Enqueues rows db db' ∧ rows ⊆ entering D db
      (.completeSchedule scheduleId claimToken claimGeneration occurrenceAt nextRunAt now) := by
  rcases completeQueueSchedule_cases h with hsame | ⟨q, sub, rows, hq, hsub, hrun, hfresh, hrows, hrow⟩
  · exact .inl hsame
  refine .inr ⟨rows, hrows, fun d hd => ?_⟩
  rw [hrow d hd]
  simp only [entering, hq, hsub, hrun, hfresh]
  simp

/-! ## What no statement changes

Every `SET` clause leaves the identity of a delivery alone: its ids, its ordering key and its place in
the order. -/

/-- `d'` is the delivery `d`, perhaps in another state. -/
structure SameDelivery (d d' : DeliveryRow) : Prop where
  id : d'.id = d.id
  subscriptionId : d'.subscriptionId = d.subscriptionId
  appId : d'.appId = d.appId
  eventId : d'.eventId = d.eventId
  orderingKey : d'.orderingKey = d.orderingKey
  createdAt : d'.createdAt = d.createdAt
  expiresAt : d'.expiresAt = d.expiresAt

theorem SameDelivery.refl (d : DeliveryRow) : SameDelivery d d := ⟨rfl, rfl, rfl, rfl, rfl, rfl, rfl⟩

theorem SameDelivery.trans {d₁ d₂ d₃ : DeliveryRow} (h : SameDelivery d₁ d₂)
    (h' : SameDelivery d₂ d₃) : SameDelivery d₁ d₃ :=
  ⟨h'.id.trans h.id, h'.subscriptionId.trans h.subscriptionId, h'.appId.trans h.appId,
    h'.eventId.trans h.eventId, h'.orderingKey.trans h.orderingKey, h'.createdAt.trans h.createdAt,
    h'.expiresAt.trans h.expiresAt⟩

theorem SameDelivery.precedes {x x' y y' : DeliveryRow} (hx : SameDelivery x x')
    (hy : SameDelivery y y') : x'.precedes y' = x.precedes y := by
  unfold DeliveryRow.precedes
  rw [hx.createdAt, hx.id, hy.createdAt, hy.id]

theorem SameDelivery.ite {p : Bool} {d' : DeliveryRow} (h : SameDelivery d d') :
    SameDelivery d (if p then d' else d) := by
  cases p
  · exact .refl d
  · exact h

section

variable (sub : QueueSubscription) (now : Int)

theorem reclaimRow_same (d : DeliveryRow) : SameDelivery d (reclaimRow sub now d) := by
  unfold reclaimRow
  split
  · split <;> exact ⟨rfl, rfl, rfl, rfl, rfl, rfl, rfl⟩
  · exact .refl d

theorem expireRow_same (d : DeliveryRow) : SameDelivery d (expireRow now d) :=
  ⟨rfl, rfl, rfl, rfl, rfl, rfl, rfl⟩

theorem leaseRow_same (terms : LeaseTerms) (hash : String) (item d : DeliveryRow) :
    SameDelivery d (leaseRow terms hash item d) := ⟨rfl, rfl, rfl, rfl, rfl, rfl, rfl⟩

theorem settleRow_same (maxAttempts : Int) (next : NextStatus) (availableAt : Int)
    (reason : String) (now : Int) (d : DeliveryRow) :
    SameDelivery d (settleRow maxAttempts next availableAt reason now d) :=
  ⟨rfl, rfl, rfl, rfl, rfl, rfl, rfl⟩

theorem extendRow_same (extension : Int) (now : Int) (d : DeliveryRow) :
    SameDelivery d (extendRow extension now d) := by
  unfold extendRow
  split
  · exact ⟨rfl, rfl, rfl, rfl, rfl, rfl, rfl⟩
  · exact .refl d

theorem replayRow_same (d : DeliveryRow) : SameDelivery d (replayRow now d) :=
  ⟨rfl, rfl, rfl, rfl, rfl, rfl, rfl⟩

theorem ids_updateWhere {p : DeliveryRow → Bool} {f : DeliveryRow → DeliveryRow}
    (hf : ∀ d, SameDelivery d (f d)) (rows : List DeliveryRow) :
    (updateWhere p f rows).map (·.id) = rows.map (·.id) :=
  map_updateWhere _ fun d _ _ => (hf d).id

@[simp] theorem insertFailureCallbacks_deliveries
    (db : QueueDb) : (insertFailureCallbacks sub now db).deliveries = db.deliveries := by
  unfold insertFailureCallbacks
  split <;> rfl

/-- An effect updates deliveries, or drops some of them. -/
theorem Effect.rows (h : Effect D db gs db') :
    (∃ p f, (∀ d, SameDelivery d (f d)) ∧ db'.deliveries = updateWhere p f db.deliveries) ∨
      ∃ p, db'.deliveries = db.deliveries.filter p := by
  cases h with
  | reclaim => exact .inl ⟨_, _, reclaimRow_same _ _, rfl⟩
  | failureCallbacks => exact .inr ⟨fun _ => true, by simp⟩
  | expire => exact .inl ⟨_, _, expireRow_same _, rfl⟩
  | lease => exact .inl ⟨_, _, leaseRow_same _ _ _, rfl⟩
  | settle => exact .inl ⟨_, _, settleRow_same _ _ _ _ _, rfl⟩
  | extend => exact .inl ⟨_, _, extendRow_same _ _, rfl⟩
  | replay => exact .inl ⟨_, _, replayRow_same _, rfl⟩
  | delete => exact .inr ⟨_, rfl⟩

/-- An effect makes no delivery: the ids after it are ids from before. -/
theorem Effect.ids_nodup (h : Effect D db gs db') (hnd : db.Keyed) : db'.Keyed := by
  unfold QueueDb.Keyed
  rcases h.rows with ⟨p, f, hf, hrows⟩ | ⟨p, hrows⟩
  · rwa [hrows, ids_updateWhere hf]
  · rw [hrows]
    exact hnd.sublist (filter_sublist.map _)

theorem Effect.mem_same (h : Effect D db gs db') {d' : DeliveryRow} (hd' : d' ∈ db'.deliveries) :
    ∃ d ∈ db.deliveries, SameDelivery d d' := by
  rcases h.rows with ⟨p, f, hf, hrows⟩ | ⟨p, hrows⟩
  · rw [hrows] at hd'
    obtain ⟨d, hd, rfl⟩ := mem_updateWhere.mp hd'
    exact ⟨d, hd, (hf d).ite⟩
  · rw [hrows] at hd'
    exact ⟨d', mem_of_mem_filter hd', .refl d'⟩

theorem Effects.ids_nodup (h : Effects D db gs db') (hnd : db.Keyed) : db'.Keyed :=
  h.induction (P := fun db _ => db.Keyed) [] Effect.ids_nodup hnd

/-! ## The statements of a pull -/

variable (locked : List String) (ops : List DeadLetterOp) (db : QueueDb)

theorem interleave_effects : Effects D db [] (interleave locked ops db) := by
  induction ops generalizing db with
  | nil => exact .refl db
  | cons op ops ih =>
    refine (Effects.single ?_).trans_nil (ih _)
    cases op with
    | replay => exact .replay _ _ _ _
    | delete => exact .delete _ _ _

@[simp] theorem insertFailureCallbacks_subscriptions :
    (insertFailureCallbacks sub now db).subscriptions = db.subscriptions := by
  unfold insertFailureCallbacks
  split <;> rfl

@[simp] theorem insertFailureCallbacks_attempts : (insertFailureCallbacks sub now db).attempts = db.attempts := by
  unfold insertFailureCallbacks
  split <;> rfl

end

variable {locked : List String}

/-- What no replay or delete may name is left alone. -/
theorem DeadLetterOp.mem_apply (op : DeadLetterOp) (hd : d ∈ db.deliveries)
    (hnot : ∀ appId subscriptionId (ids : List String),
      deadLetterTarget db appId subscriptionId (ids.filter (!locked.contains ·)) d = false) :
    d ∈ (op.apply locked db).deliveries := by
  cases op with
  | replay =>
    refine mem_updateWhere.mpr ⟨d, hd, ?_⟩
    rw [hnot]
    rfl
  | delete =>
    refine mem_filter.mpr ⟨hd, ?_⟩
    rw [hnot]
    rfl

/-- What is not dead-lettered sits out every replay and delete. -/
theorem DeadLetterOp.mem_apply_of_live (op : DeadLetterOp) (hd : d ∈ db.deliveries) (h : d.status ≠ .deadLetter) :
    d ∈ (op.apply locked db).deliveries :=
  op.mem_apply hd fun _ _ _ => by simp [deadLetterTarget, isDeadLetter, h]

theorem mem_interleave_of_live (ops : List DeadLetterOp) (hd : d ∈ db.deliveries) (h : d.status ≠ .deadLetter) :
    d ∈ (interleave locked ops db).deliveries := by
  induction ops generalizing db with
  | nil => exact hd
  | cons op ops ih => exact ih (op.mem_apply_of_live hd h)

theorem mem_interleave_of_available (ops : List DeadLetterOp) (hd : d ∈ db.deliveries) (h : d.status = .available) :
    d ∈ (interleave locked ops db).deliveries :=
  mem_interleave_of_live ops hd (by rw [h]; simp)

theorem pullPrepare_effects (gaps : Nat → List DeadLetterOp) {sub : SubscriptionRow} (now : Int)
    (hsub : sub ∈ db.subscriptions) : Effects D db [] (pullPrepare gaps sub.toQueueSubscription now db).1 := by
  set reclaimed := idsWhere (reclaimable sub.id now) db
  refine (Effects.single (.reclaim sub hsub now)).trans_nil ?_
  refine (interleave_effects reclaimed (gaps 0) _).trans_nil ?_
  refine (Effects.single (.failureCallbacks sub now)).trans_nil ?_
  refine (interleave_effects reclaimed (gaps 1) _).trans_nil ?_
  refine (Effects.single (.expire sub now)).trans_nil ?_
  exact interleave_effects _ (gaps 2) _

variable {sub : QueueSubscription} {limit : Nat}

/-- What is selected is available and due, and no delivery is selected twice. -/
theorem mem_selectDeliveries {x : DeliveryRow × EventRow} (h : x ∈ selectDeliveries sub now limit db) :
    x.1 ∈ db.deliveries ∧ pullable sub now db x.1 = true := by
  have hsorted := (perm_insertionSort _ _).mem_iff.mp (mem_of_mem_take h)
  obtain ⟨d, hd, hx⟩ := mem_filterMap.mp hsorted
  obtain ⟨e, -, rfl⟩ := Option.map_eq_some_iff.mp hx
  exact mem_filter.mp hd

theorem selectDeliveries_ids_nodup (hnd : db.Keyed) : ((selectDeliveries sub now limit db).map (·.1.id)).Nodup := by
  set due := (db.deliveries.filter (pullable sub now db)).filterMap fun d =>
    (db.events.find? fun e => e.id = d.eventId).map fun e => (d, e)
  have hsub : List.Sublist (due.map (·.1.id)) (db.deliveries.map (·.id)) := by
    refine .trans ?_ ((filter_sublist (p := pullable sub now db)).map _)
    rw [map_filterMap]
    -- dropping the deliveries without an event leaves a sublist
    generalize db.deliveries.filter (pullable sub now db) = rows
    induction rows with
    | nil => simp
    | cons d rows ih =>
      cases he : db.events.find? (fun e => e.id = d.eventId) with
      | none => simpa [he] using ih.cons d.id
      | some => simpa [he] using ih
  have hperm := (perm_insertionSort (fun a b => pullOrder now a.1 b.1 = true) due).map (·.1.id)
  exact ((hperm.nodup_iff).mpr (hnd.sublist hsub)).sublist ((take_sublist _ _).map _)

theorem pullable_available (h : pullable sub now db d = true) : d.status = .available := by
  simp only [pullable, Bool.and_eq_true] at h
  exact isAvailable_iff.mp h.1.1.1.2

variable {gaps : Nat → List DeadLetterOp} {leased : List QueueDelivery}
  {selected rest : List (DeliveryRow × EventRow)} {request : QueuePullRequest} {status : SettlementStatus}

/-- **The rule of the loop.** What one turn (the gap, then the lease) keeps, from the deliveries still
to lease to the ones returned so far, the loop keeps. -/
theorem leaseSelected_induction {terms : LeaseTerms}
    {I : Nat → List (DeliveryRow × EventRow) → List QueueDelivery → QueueDb → Prop}
    (hturn : ∀ {k item e rest receipt acc db}, I k ((item, e) :: rest) acc db →
      I (k + 1) rest (acc ++ [leasedDelivery terms receipt item e])
        (leasedDb D terms receipt item (interleave locked (gaps k) db)))
    {k : Nat} {receipts : List String} (acc : List QueueDelivery)
    (h : leaseSelected D gaps locked terms k selected receipts db = .ok (leased, db')) (h0 : I k selected acc db) :
    I (k + selected.length) [] (acc ++ leased) db' := by
  induction selected generalizing k receipts db leased acc with
  | nil =>
    cases h
    simpa using h0
  | cons x rest ih =>
    obtain ⟨item, e⟩ := x
    cases receipts with
    | nil => cases h
    | cons receipt =>
      unfold leaseSelected at h
      split at h
      · cases h
      next hlease =>
      split at h
      · cases h
      next hrest =>
      cases h
      unfold leaseDelivery at hlease
      split at hlease
      · cases hlease
      cases hlease
      have hlast := ih (acc ++ [leasedDelivery terms receipt item e]) hrest (hturn h0)
      rw [append_assoc] at hlast
      rwa [length_cons, ← Nat.add_assoc, Nat.add_right_comm]

/-- The deliveries still to lease are stored and available, each once. -/
structure Waiting (rest : List (DeliveryRow × EventRow)) (db : QueueDb) : Prop where
  ids : (rest.map (·.1.id)).Nodup
  stored : ∀ x ∈ rest, x.1 ∈ db.deliveries ∧ x.1.status = .available

theorem Waiting.select (hnd : db.Keyed) : Waiting (selectDeliveries sub now limit db) db := by
  refine ⟨selectDeliveries_ids_nodup hnd, fun x hx => ?_⟩
  obtain ⟨hmem, hpull⟩ := mem_selectDeliveries hx
  exact ⟨hmem, pullable_available hpull⟩

theorem Waiting.interleave (h : Waiting rest db) (locked : List String) (ops : List DeadLetterOp) :
    Waiting rest (interleave locked ops db) :=
  ⟨h.ids, fun x hx => ⟨mem_interleave_of_available ops (h.stored x hx).1 (h.stored x hx).2, (h.stored x hx).2⟩⟩

theorem Waiting.lease {item : DeliveryRow} {e : EventRow} (h : Waiting ((item, e) :: rest) db) (D : Digests)
    (terms : LeaseTerms) (receipt : String) : Waiting rest (leasedDb D terms receipt item db) := by
  have hids := h.ids
  rw [map_cons, nodup_cons] at hids
  refine ⟨hids.2, fun x hx => ?_⟩
  obtain ⟨hmem, havail⟩ := h.stored x (mem_cons_of_mem _ hx)
  have hne : x.1.id ≠ item.id := by
    intro heq
    exact hids.1 (heq ▸ mem_map_of_mem hx)
  exact ⟨mem_updateWhere.mpr ⟨x.1, hmem, by simp [hne]⟩, havail⟩

/-- **The loop leases the selection**: each turn is a gap and a lease. -/
theorem leaseSelected_effects {terms : LeaseTerms} {k : Nat} {receipts : List String} (hwait : Waiting selected db)
    (h : leaseSelected D gaps locked terms k selected receipts db = .ok (leased, db')) :
    Effects D db (leased.map QueueDelivery.grant) db' := by
  refine (leaseSelected_induction (I := fun _ rest acc db₁ => Waiting rest db₁ ∧
    Effects D db (acc.map QueueDelivery.grant) db₁) ?_ [] h ⟨hwait, .refl db⟩).2
  rintro k item e rest receipt acc db₁ ⟨hwait, heffects⟩
  have hgap := hwait.interleave locked (gaps k)
  obtain ⟨hitem, havail⟩ := hgap.stored (item, e) mem_cons_self
  refine ⟨hgap.lease D terms receipt, ?_⟩
  rw [map_append]
  refine heffects.trans ((interleave_effects locked (gaps k) db₁).trans_nil ?_)
  exact .single (.lease terms receipt item hitem havail)

/-- A pull that returns, stage by stage: nothing while draining; otherwise the preparation, the
counts, and unless they leave no room the selection and its leases. -/
inductive PullCase (D : Digests) (gaps : Nat → List DeadLetterOp) (db : QueueDb)
    (request : QueuePullRequest) : List QueueDelivery → QueueDb → Prop where
  | draining (sub : SubscriptionRow) (hsub : db.findSubscription request.appId request.subscriptionId = some sub)
      (hdraining : sub.drainingAt.isSome = true) : PullCase D gaps db request [] db
  | full (sub : SubscriptionRow) (hsub : db.findSubscription request.appId request.subscriptionId = some sub)
      (db₁ db₂ : QueueDb) (written : List String)
      (hprepare : pullPrepare gaps sub.toQueueSubscription request.now db = (db₁, written))
      (hgap : db₂ = interleave written (gaps 3) db₁)
      (hlimit : pullLimit sub.toQueueSubscription request db₁ db₂ = none) :
      PullCase D gaps db request [] db₂
  | leasing (sub : SubscriptionRow) (hsub : db.findSubscription request.appId request.subscriptionId = some sub)
      (db₁ db₂ db₃ db' : QueueDb) (written : List String)
      (hprepare : pullPrepare gaps sub.toQueueSubscription request.now db = (db₁, written))
      (hgap : db₂ = interleave written (gaps 3) db₁)
      (limit : Int) (hpos : 0 ≤ limit)
      (hlimit : pullLimit sub.toQueueSubscription request db₁ db₂ = some limit)
      (hgap' : db₃ = interleave written (gaps 4) db₂)
      (leased : List QueueDelivery)
      (hlease : leaseSelected D gaps written (leaseTerms sub.toQueueSubscription request) 5
        (selectDeliveries sub.toQueueSubscription request.now limit.toNat db₃) request.receipts db₃
          = .ok (leased, db')) :
      PullCase D gaps db request leased db'

theorem pullQueueDeliveries_cases (h : pullQueueDeliveries D gaps db request = .ok (leased, db')) :
    PullCase D gaps db request leased db' := by
  unfold pullQueueDeliveries at h
  split at h
  · cases h
  next sub hsub =>
  split at h
  next hdraining =>
    cases h
    exact .draining sub hsub hdraining
  · split at h
    · cases h
    unfold pullReady at h
    split at h
    next db₁ written hprepare =>
    dsimp only at h
    split at h
    next hlimit =>
      cases h
      exact .full sub hsub db₁ _ written hprepare rfl hlimit
    next limit hlimit =>
      split at h
      · cases h
      next hneg =>
        exact .leasing sub hsub db₁ _ _ db' written hprepare rfl limit (not_lt.mp hneg) hlimit rfl leased h

/-- A pull from the counts on: its preparation grants nothing, and what it returns is leased
afterwards. -/
theorem PullCase.effects (hnd : db.Keyed) (h : PullCase D gaps db request leased db') :
    Effects D db (leased.map QueueDelivery.grant) db' := by
  cases h with
  | draining => exact .refl db
  | full sub hsub db₁ db₂ written hprepare hgap =>
    have hprep := pullPrepare_effects (D := D) gaps request.now (findSubscription_some hsub).1
    rw [hprepare] at hprep
    subst hgap
    exact hprep.trans_nil (interleave_effects written (gaps 3) db₁)
  | leasing sub hsub db₁ db₂ db₃ db' written hprepare hgap limit hpos hlimit hgap' leased hlease =>
    have hprep := pullPrepare_effects (D := D) gaps request.now (findSubscription_some hsub).1
    rw [hprepare] at hprep
    subst hgap hgap'
    have hselect := (hprep.trans_nil (interleave_effects written (gaps 3) db₁)).trans_nil
      (interleave_effects written (gaps 4) _)
    exact hselect.trans_nil (leaseSelected_effects (.select (hselect.ids_nodup hnd)) hlease)

/-! ## Operations -/

/-- A settlement that returns: the receipt is invalid, or a row that holds it is settled. -/
inductive SettleCase (D : Digests) (sub : SubscriptionRow) (settlement : QueueSettlement) (now : Int)
    (db : QueueDb) : SettlementStatus → QueueDb → Prop where
  | invalid : SettleCase D sub settlement now db .invalidReceipt db
  | settled (next : NextStatus) (availableAt : Int) (d : DeliveryRow)
      (hnext : settleTarget settlement now = some (next, availableAt))
      (hfind : db.deliveries.find? (receiptTarget D sub.appId sub.id settlement.receipt now) = some d) :
      SettleCase D sub settlement now db
        (settledStatus (settleRow sub.maxAttempts next availableAt settlement.reason now d))
        (settledDb D sub.toQueueSubscription settlement next availableAt now d db)

theorem settleStep_cases {settlement : QueueSettlement}
    (h : settleStep D appId subscriptionId settlement now db = .ok (status, db')) :
    ∃ sub, db.findSubscription appId subscriptionId = some sub ∧ SettleCase D sub settlement now db status db' := by
  unfold settleStep at h
  split at h
  · cases h
  next sub hsub =>
  refine ⟨sub, hsub, ?_⟩
  unfold settleQueueDelivery at h
  split at h
  · cases h
    exact .invalid
  next next availableAt hnext =>
  split at h
  · cases h
    exact .invalid
  next d hfind =>
  dsimp only at h
  split at h
  · cases h
  · cases h
    exact .settled next availableAt d hnext hfind

theorem extendStep_ok {extension : QueueLeaseExtension}
    (h : extendStep D appId subscriptionId extension now db = .ok (status, db')) :
    extendQueueLease D appId subscriptionId extension now db = (status, db') := by
  unfold extendStep at h
  split at h
  · cases h
  · exact Except.ok.inj h

/-- **What each operation does**, by the operation. Everything that fails, and everything on
subscriptions and schedules alone, is `control`. -/
inductive StepCase (D : Digests) (db : QueueDb) : QueueOp → QueueOut → QueueDb → Prop where
  | control {op : QueueOp} {out : QueueOut} {db' : QueueDb} (hgrants : out.grants = [])
      (h : SameWork db db') : StepCase D db op out db'
  | publish {p : QueuePublication} {db' : QueueDb} (rows : List DeliveryRow)
      (h : Enqueues rows db db') (hrows : rows ⊆ entering D db (.publish p)) :
      StepCase D db (.publish p) .done db'
  | complete {scheduleId claimToken : String} {claimGeneration : Nat}
      {occurrenceAt nextRunAt now : Int} {db' : QueueDb} (rows : List DeliveryRow)
      (h : Enqueues rows db db') (hrows : rows ⊆ entering D db
        (.completeSchedule scheduleId claimToken claimGeneration occurrenceAt nextRunAt now)) :
      StepCase D db (.completeSchedule scheduleId claimToken claimGeneration occurrenceAt nextRunAt now) .done db'
  | settle {appId subscriptionId : String} {settlement : QueueSettlement} {now : Int}
      (sub : SubscriptionRow) (hsub : db.findSubscription appId subscriptionId = some sub)
      (next : NextStatus) (availableAt : Int) (d : DeliveryRow)
      (hfind : db.deliveries.find? (receiptTarget D sub.appId sub.id settlement.receipt now) = some d) :
      StepCase D db (.settle appId subscriptionId settlement now)
        (.settled (settledStatus (settleRow sub.maxAttempts next availableAt settlement.reason now d)))
        (settledDb D sub.toQueueSubscription settlement next availableAt now d db)
  | extend {appId subscriptionId : String} {extension : QueueLeaseExtension} {now : Int} :
      StepCase D db (.extend appId subscriptionId extension now)
        (.extended (extendQueueLease D appId subscriptionId extension now db).1)
        (extendQueueLease D appId subscriptionId extension now db).2
  | pull {request : QueuePullRequest} {gaps : Nat → List DeadLetterOp}
      {leased : List QueueDelivery} {db' : QueueDb} (h : PullCase D gaps db request leased db') :
      StepCase D db (.pull request gaps) (.pulled leased) db'
  | replay {appId subscriptionId : String} {ids : List String} {now : Int} :
      StepCase D db (.replay appId subscriptionId ids now)
        (.count (replayQueueDeadLetters db appId subscriptionId ids now).1)
        (replayQueueDeadLetters db appId subscriptionId ids now).2
  | delete {appId subscriptionId : String} {ids : List String} :
      StepCase D db (.delete appId subscriptionId ids)
        (.count (deleteQueueDeadLetters db appId subscriptionId ids).1)
        (deleteQueueDeadLetters db appId subscriptionId ids).2

section Steps

variable {D : Digests} {db : QueueDb} {op : QueueOp}

theorem StepCase.failed (e : StoreError) : StepCase D db op (.failed e) db :=
  .control rfl (.refl db)

theorem StepCase.commitDone {result : Except StoreError QueueDb}
    (h : ∀ db', result = .ok db' → StepCase D db op .done db') :
    StepCase D db op (commitDone db result).1 (commitDone db result).2 := by
  cases result with
  | error e => exact .failed e
  | ok db' => exact h db' rfl

theorem StepCase.commit {α : Type} {out : α → QueueOut} {result : Except StoreError (α × QueueDb)}
    (h : ∀ a db', result = .ok (a, db') → StepCase D db op (out a) db') :
    StepCase D db op (commit out db result).1 (commit out db result).2 := by
  cases result with
  | error e => exact .failed e
  | ok r => exact h r.1 r.2 rfl

end Steps

theorem exec_cases (D : Digests) (db : QueueDb) (op : QueueOp) :
    StepCase D db op ((queue D).out db op) ((queue D).next db op) := by
  show StepCase D db op (exec D db op).1 (exec D db op).2
  cases op with
  | createSubscription =>
    exact .commitDone fun _ h => .control rfl (createQueueSubscription_configured h).sameWork
  | updateSubscription =>
    exact .commit fun _ _ h => .control rfl (updateQueueSubscription_configured h).sameWork
  | beginDrain appId subscriptionId startedAt deadlineAt =>
    have hsame := (beginQueueDrain_configured appId subscriptionId startedAt deadlineAt db).sameWork
    rw [exec]
    generalize beginQueueDrain appId subscriptionId startedAt deadlineAt db = result at hsame
    obtain ⟨drain, db'⟩ := result
    cases drain <;> exact .control rfl hsame
  | getDrain =>
    exact .commit fun _ _ h => .control rfl (getQueueDrain_configured h).sameWork
  | createSchedule =>
    refine .commitDone fun _ h => .control rfl ?_
    obtain ⟨_, _, _, _, rfl⟩ := createQueueSchedule_ok h
    exact .schedules db _
  | updateSchedule =>
    refine .commitDone fun _ h => .control rfl ?_
    obtain ⟨_, _, _, rfl⟩ := updateQueueSchedule_ok h
    exact .schedules db _
  | claimSchedules =>
    exact .control rfl ⟨rfl, rfl, rfl, rfl, id⟩
  | completeSchedule =>
    refine .commitDone fun _ h => ?_
    rcases completeQueueSchedule_entering h with hsame | ⟨rows, hrows, hsub⟩
    · exact .control rfl hsame
    · exact .complete rows hrows hsub
  | publish =>
    refine .commitDone fun _ h => ?_
    obtain ⟨rows, hrows, hsub⟩ := publishQueue_entering h
    exact .publish rows hrows hsub
  | pull =>
    exact .commit fun _ _ h => .pull (pullQueueDeliveries_cases h)
  | settle =>
    refine .commit fun _ _ h => ?_
    obtain ⟨sub, hsub, hcase⟩ := settleStep_cases h
    cases hcase with
    | invalid => exact .control rfl (.refl db)
    | settled next availableAt d _ hfind => exact .settle sub hsub next availableAt d hfind
  | extend =>
    refine .commit fun status db' h => ?_
    have hresult := extendStep_ok h
    obtain ⟨rfl, rfl⟩ := Prod.mk.inj hresult
    exact .extend
  | replay => exact .replay
  | delete => exact .delete

theorem exec_operation (hnd : db.Keyed) (op : QueueOp) :
    Operation D db ((queue D).out db op).grants ((queue D).next db op) := by
  have hcase := exec_cases D db op
  generalize (queue D).out db op = out, (queue D).next db op = db' at hcase ⊢
  cases hcase with
  | control hgrants h =>
    rw [hgrants]
    exact .control h
  | publish rows h | complete rows h => exact .enqueue rows h
  | settle sub hsub next availableAt d hfind =>
    exact .effects (.single (.settle sub (findSubscription_some hsub).1 _ next availableAt _ d hfind))
  | extend => exact .effects (.single (.extend _ _ _ _))
  | pull h => exact .effects (h.effects hnd)
  | replay => exact .effects (.single (.replay _ _ _ _))
  | delete => exact .effects (.single (.delete _ _ _))

theorem out_cases (D : Digests) (db : QueueDb) (op : QueueOp) :
    ((queue D).out db op).grants = [] ∨ ∃ request gaps leased, op = .pull request gaps ∧
      PullCase D gaps db request leased ((queue D).next db op) ∧
      (queue D).out db op = .pulled leased := by
  have hcase := exec_cases D db op
  generalize (queue D).out db op = out, (queue D).next db op = db' at hcase ⊢
  cases hcase with
  | control hgrants => exact .inl hgrants
  | pull h => exact .inr ⟨_, _, _, rfl, h, rfl⟩
  | _ => exact .inl rfl

/-! ## Reachable states -/

theorem Operation.ids_nodup (h : Operation D db gs db') (hnd : db.Keyed) : db'.Keyed := by
  cases h with
  | control h => rwa [QueueDb.Keyed, h.deliveries]
  | enqueue rows h => exact h.ids hnd
  | effects h => exact h.ids_nodup hnd

theorem reach_concat (D : Digests) (ops : List QueueOp) (op : QueueOp) :
    reach D (ops ++ [op]) = (queue D).next (reach D ops) op :=
  (queue D).run_concat {} ops op

theorem reach_ids_nodup (D : Digests) (ops : List QueueOp) : (reach D ops).Keyed :=
  (queue D).run_induction (P := fun db => db.Keyed) (s := {})
    nodup_nil (fun _ op hnd => (exec_operation hnd op).ids_nodup hnd) ops

theorem reach_concat_operation (D : Digests) (ops : List QueueOp) (op : QueueOp) :
    Operation D (reach D ops) ((queue D).out (reach D ops) op).grants (reach D (ops ++ [op])) := by
  rw [reach_concat]
  exact exec_operation (reach_ids_nodup D ops) op

end RelayHub.Queue
