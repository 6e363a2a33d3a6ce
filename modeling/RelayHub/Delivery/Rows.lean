import RelayHub.Delivery.System

/-! # RelayHub deliveries — what a transaction does to a row

`RowStep` says what one transaction can do to one row of `deliveries`, with the guards under which the
store does it; `AttemptsStep` says the same of `delivery_attempts`. `exec_rows` and `exec_attempts` prove
it of every transaction. Whatever is said later about callback leases, assignments and generations is
read off these two, and no transaction is unfolded again. -/

namespace RelayHub.Delivery

open List Table

/-! ## Rows -/

/-- The transactions whose guards leave a terminal status open. -/
def DeliveryOp.mayReopen : DeliveryOp → Bool
  | .markDispatched .. | .retry .. | .fail .. | .beginPublish .. | .finishCallback .. => true
  | _ => false

def DeliveryOp.isReplay : DeliveryOp → Bool
  | .replay .. => true
  | _ => false

/-- An attempt was granted. -/
def DeliveryOut.isReady : DeliveryOut → Bool
  | .callback .ready => true
  | _ => false

/-- `BeginCallbackAttempt` gets past its early returns: the delivery is one of callbacks and open. -/
structure DeliveryRow.Idle (d : DeliveryRow) : Prop where
  sink : d.sink = .callback
  status : d.status.isTerminal = false

/-- What one transaction does to one row. -/
inductive RowStep (op : DeliveryOp) (out : DeliveryOut) (d : DeliveryRow) : DeliveryRow → Prop where
  | kept : RowStep op out d d
  /-- Its outbox row was dispatched, put back or given up. -/
  | outbox (status : DeliveryStatus) (updatedAt : Int) (hop : op.mayReopen = true) (hacked : d.status ≠ .acked)
      (hdead : d.status = .deadLetter → status = .deadLetter)
      (hassigned : status = .deadLetter → d.assignment = none) (hopen : status ≠ .acked)
      (hundelivered : status ≠ .delivered) :
      RowStep op out d { d with status := status, updatedAt := updatedAt }
  | giveUp {token : String} {now lease : Int} {target : CallbackTarget} (reason : String)
      (hop : op = .beginCallback d.id d.generation token now lease target) (hidle : d.Idle) :
      RowStep op out d (d.giveUp reason now)
  | start {token : String} {now lease : Int} {target : CallbackTarget} (url : String) (version : Int)
      (hop : op = .beginCallback d.id d.generation token now lease target)
      (hout : out = .callback .ready) (hidle : d.Idle) :
      RowStep op out d (d.startAttempt token (now + lease) url version now)
  | finish {token : String} {t : CallbackAttemptTransition} (status : DeliveryStatus) (outcome : AttemptOutcome)
      (hop : op = .finishCallback d.id d.generation token d.attempts t)
      (htarget : t.target = some (status, outcome)) (hsink : d.sink = .callback) :
      RowStep op out d (d.finish status t)
  | dlq {now : Int} (publishedAt updatedAt : Int) (hop : op = .markDLQPublished d.id d.generation now)
      (hdead : d.status = .deadLetter) :
      RowStep op out d { d with callbackDLQPublishedAt := some publishedAt, updatedAt := updatedAt }
  | assign {connectionId token : String} {now lease maxProcessing : Int} (assignment : Assignment)
      (hop : op = .assign d.id d.targetAppId connectionId token d.generation now lease maxProcessing)
      (hout : out = .assignment .assigned) (hsink : d.sink = .stream)
      (hnew : newAssignment connectionId token now lease maxProcessing = some assignment)
      (hacked : d.status ≠ .acked) (hdead : d.status ≠ .deadLetter)
      (hfree : ∀ a ∈ d.assignment, a.expiresAt ≤ now) :
      RowStep op out d { d with
        assignment := some assignment
        attempts := d.attempts + 1
        updatedAt := max d.updatedAt now }
  | acknowledge {connectionId token : String} {now : Int}
      (hop : op = .acknowledge d.id d.targetAppId connectionId token d.generation now)
      (hheld : d.assignedTo d.id d.targetAppId connectionId token d.generation now = true) :
      RowStep op out d { d with status := .acked, updatedAt := max d.updatedAt now }
  | release {connectionId token : String} {now : Int}
      (hop : op = .release d.id d.targetAppId connectionId token d.generation now)
      (hheld : d.assignedTo d.id d.targetAppId connectionId token d.generation now = true) :
      RowStep op out d { d with
        status := .retrying
        assignment := none
        updatedAt := max d.updatedAt now }
  | progress {connectionId token : String} {now lease : Int} (a a' : Assignment)
      (hop : op = .progress d.id d.targetAppId connectionId token d.generation now lease)
      (hheld : d.assignedTo d.id d.targetAppId connectionId token d.generation now = true)
      (ha : d.assignment = some a) (ha' : a.progress (now + lease) = some a') :
      RowStep op out d { d with assignment := some a', updatedAt := max d.updatedAt now }
  | replay {command : ReplayCommand} {clock : Int} (hop : op = .replay command clock)
      (hdead : d.status = .deadLetter) :
      RowStep op out d (d.replayed command.now)

variable {op : DeliveryOp} {out : DeliveryOut}

section RowStep

variable {d d' : DeliveryRow}

variable (h : RowStep op out d d')

include h

@[simp] theorem RowStep.id : d'.id = d.id := by cases h <;> rfl

theorem RowStep.eventId : d'.eventId = d.eventId := by cases h <;> rfl

end RowStep

/-- What `assignedTo` reads off a row. -/
structure Holds (connectionId token : String) (now : Int) (a : Assignment) (d : DeliveryRow) : Prop where
  sink : d.sink = .stream
  assignment : d.assignment = some a
  connectionId : a.connectionId = connectionId
  token : a.token = token
  running : now < a.expiresAt
  acked : d.status ≠ .acked
  dead : d.status ≠ .deadLetter

theorem assignedTo_iff {deliveryId targetAppId connectionId token : String} {generation now : Int} {d : DeliveryRow} :
    d.assignedTo deliveryId targetAppId connectionId token generation now = true ↔
      d.id = deliveryId ∧ d.targetAppId = targetAppId ∧ (d.generation : Int) = generation ∧
        ∃ a, Holds connectionId token now a d := by
  simp only [DeliveryRow.assignedTo, Bool.and_eq_true, decide_eq_true_eq, Option.any_eq_true]
  constructor
  · rintro ⟨⟨⟨⟨⟨⟨hid, happ⟩, hsink⟩, a, ha, ⟨hconn, htoken⟩, hrun⟩, hgen⟩, hacked⟩, hdead⟩
    exact ⟨hid, happ, hgen, a, hsink, ha, hconn, htoken, hrun, hacked, hdead⟩
  · rintro ⟨hid, happ, hgen, a, h⟩
    exact ⟨⟨⟨⟨⟨⟨hid, happ⟩, h.sink⟩, a, h.assignment, ⟨h.connectionId, h.token⟩, h.running⟩, hgen⟩, h.acked⟩, h.dead⟩

/-! ## Dispatchers -/

/-- The row keeps its message. -/
structure SameMessage (o o' : OutboxRow) : Prop where
  id : o'.id = o.id
  deliveryId : o'.deliveryId = o.deliveryId
  generation : o'.generation = o.generation
  payload : o'.payload = o.payload
  messageId : o'.messageId = o.messageId

theorem SameMessage.refl (o : OutboxRow) : SameMessage o o := ⟨rfl, rfl, rfl, rfl, rfl⟩

theorem updateWhere_messages {p : OutboxRow → Bool} {f : OutboxRow → OutboxRow} {outbox : List OutboxRow}
    (hf : ∀ o, SameMessage o (f o)) : List.Forall₂ SameMessage outbox (updateWhere p f outbox) :=
  forall₂_updateWhere .refl hf

/-- The transaction takes its steps on the rows and leaves `delivery_attempts` alone. -/
abbrev Moves (op : DeliveryOp) (out : DeliveryOut) (db db' : DeliveryDb) : Prop :=
  List.Forall₂ (RowStep op out) db.deliveries db'.deliveries ∧ db'.attempts = db.attempts

/-- A dispatcher moves a row through its states and never touches its message. -/
structure Dispatches (op : DeliveryOp) (out : DeliveryOut) (db db' : DeliveryDb) : Prop where
  rows : List.Forall₂ (RowStep op out) db.deliveries db'.deliveries ∧ db'.attempts = db.attempts
  messages : List.Forall₂ SameMessage db.outbox db'.outbox
  requests : db'.replayRequests = db.replayRequests

variable {db db' : DeliveryDb} {now : Int}

section Outbox

variable {reason : String}

theorem rows_kept (h : db'.deliveries = db.deliveries) : List.Forall₂ (RowStep op out) db.deliveries db'.deliveries :=
  h ▸ forall₂_same.mpr fun _ _ => .kept

theorem advanceOpen_rows (hop : op.mayReopen = true) (deliveryId : String) (status : DeliveryStatus) (stamp : Int → Int)
    (hstatus : status = .dispatched ∨ status = .retrying) (rows : List DeliveryRow) :
    List.Forall₂ (RowStep op out) rows (advanceOpen deliveryId status stamp rows) := by
  refine forall₂_updateWhere_hit (fun _ => .kept) fun d _ hp => ?_
  simp only [Bool.and_eq_true, decide_eq_true_eq] at hp
  refine .outbox status (stamp d.updatedAt) hop hp.1.2 (fun hdead => absurd hdead hp.2) ?_ ?_ ?_
  all_goals rcases hstatus with rfl | rfl <;> intro h <;> cases h

theorem failRow_rows (hop : op.mayReopen = true) {o : OutboxRow} (h : failRow o now reason db = .ok db') :
    Dispatches op out db db' := by
  unfold failRow at h
  split at h
  · cases h
  next hdead =>
  cases h
  refine ⟨⟨?_, rfl⟩, updateWhere_messages fun _ => ⟨rfl, rfl, rfl, rfl, rfl⟩, rfl⟩
  unfold deadLetterUnacked at hdead
  dsimp only at hdead
  split at hdead
  · cases hdead
  next hassigned =>
  cases hdead
  refine forall₂_updateWhere_hit (fun _ => .kept) fun d hd hp => ?_
  have hfree : d.assignment = none := by
    by_contra hsome
    rw [← cleared_complete_iff, Bool.not_eq_true] at hsome
    exact hassigned (any_eq_true.mpr ⟨d, hd, by rw [hp, hsome]; rfl⟩)
  simp only [Bool.and_eq_true, decide_eq_true_eq] at hp
  exact .outbox .deadLetter (max d.updatedAt now) hop hp.2 (fun _ => rfl) (fun _ => hfree) nofun nofun

variable {outboxId claimToken : String}

section

variable (hop : op.mayReopen = true)

include hop

theorem markOutboxDispatched_rows (h : markOutboxDispatched outboxId claimToken now db = .ok db') :
    Dispatches op out db db' := by
  unfold markOutboxDispatched at h
  split at h
  · cases h
  split at h
  next o _ =>
    cases h
    exact ⟨⟨advanceOpen_rows hop o.deliveryId .dispatched (max · now) (.inl rfl) db.deliveries, rfl⟩,
      updateWhere_messages fun _ => ⟨rfl, rfl, rfl, rfl, rfl⟩, rfl⟩
  · split at h
    · cases h
    split at h
    · cases h
      exact ⟨⟨rows_kept rfl, rfl⟩, forall₂_same.mpr fun _ _ => .refl _, rfl⟩
    · cases h

theorem retryOutbox_rows {availableAt clock : Int}
    (h : retryOutbox outboxId claimToken availableAt reason clock db = .ok db') : Dispatches op out db db' := by
  unfold retryOutbox at h
  split at h
  · cases h
  next o _ =>
    cases h
    exact ⟨⟨advanceOpen_rows hop o.deliveryId .retrying (fun _ => clock) (.inr rfl) db.deliveries, rfl⟩,
      updateWhere_messages fun _ => ⟨rfl, rfl, rfl, rfl, rfl⟩, rfl⟩

theorem failOutbox_rows (h : failOutbox outboxId claimToken now reason db = .ok db') : Dispatches op out db db' := by
  unfold failOutbox at h
  split at h
  · cases h
  · exact failRow_rows hop h

theorem beginOutboxPublish_rows {maxAttempts : Int} {start : OutboxPublishStart}
    (h : beginOutboxPublish outboxId claimToken now maxAttempts db = .ok (start, db')) :
    Dispatches op out db db' := by
  unfold beginOutboxPublish at h
  split at h
  · cases h
  split at h
  · cases h
  split at h
  · split at h
    · cases h
    next hfail =>
      cases h
      exact failRow_rows hop hfail
  · cases h
    exact ⟨⟨rows_kept rfl, rfl⟩, updateWhere_messages fun _ => ⟨rfl, rfl, rfl, rfl, rfl⟩, rfl⟩

end

theorem claimOutbox_rows {staleBefore limit : Int} {skipped : List String} {claimed : List (OutboxRow × Bool)}
    (h : claimOutbox now staleBefore claimToken limit skipped db = .ok (claimed, db')) :
    Dispatches op out db db' := by
  unfold claimOutbox at h
  split at h
  · cases h
  · cases h
    exact ⟨⟨rows_kept rfl, rfl⟩, updateWhere_messages fun _ => ⟨rfl, rfl, rfl, rfl, rfl⟩, rfl⟩

end Outbox

/-! ## Callback workers -/

variable {deliveryId token : String} {generation : Int}

section Callbacks

variable {t : CallbackAttemptTransition}

/-- What one transaction does to `delivery_attempts`. -/
inductive AttemptsStep (db : DeliveryDb) (op : DeliveryOp) (out : DeliveryOut) : List AttemptRow → Prop where
  | kept (hstart : out.isReady = false) : AttemptsStep db op out db.attempts
  | start {token : String} {now lease : Int} {target : CallbackTarget} (d : DeliveryRow) (hd : d ∈ db.deliveries)
      (hop : op = .beginCallback d.id d.generation token now lease target) :
      AttemptsStep db op out (insertIgnore AttemptRow.key db.attempts (d.started token now))
  | finish {deliveryId token : String} {generation attempt : Int} {t : CallbackAttemptTransition}
      (outcome : AttemptOutcome) (hop : op = .finishCallback deliveryId generation token attempt t) :
      AttemptsStep db op out (updateWhere (AttemptRow.isAttempt deliveryId generation attempt)
        (fun a => { a with outcome := outcome, reason := some t.reason, updatedAt := t.now }) db.attempts)

theorem target_cases {status : DeliveryStatus} {outcome : AttemptOutcome} (h : t.target = some (status, outcome)) :
    status = .delivered ∧ outcome = .delivered ∨
      status = .retrying ∧ outcome = .retrying ∨ status = .deadLetter ∧ outcome = .deadLetter := by
  unfold CallbackAttemptTransition.target at h
  split at h
  · cases h
    exact .inl ⟨rfl, rfl⟩
  · split at h
    · cases h
    · cases h
      exact .inr (.inl ⟨rfl, rfl⟩)
  · cases h
    exact .inr (.inr ⟨rfl, rfl⟩)
  · cases h

/-- The early returns of `BeginCallbackAttempt` leave an idle row. -/
theorem idle_of_guards {d : DeliveryRow} (hsink : d.sink = .callback)
    (hdone : ¬ (decide (d.status = .acked) || decide (d.status = .delivered)) = true)
    (hdead : ¬ d.status = .deadLetter) : d.Idle where
  sink := hsink
  status := by
    simp only [Bool.or_eq_true, decide_eq_true_eq, not_or] at hdone
    cases hstatus : d.status <;> simp_all [DeliveryStatus.isTerminal]

theorem beginCallbackAttempt_rows {lease : Int} {target : CallbackTarget} {disposition : CallbackDisposition}
    (hnd : db.Keyed)
    (h : beginCallbackAttempt deliveryId generation token now lease target db = .ok (disposition, db')) :
    List.Forall₂ (RowStep (.beginCallback deliveryId generation token now lease target)
      (.callback disposition)) db.deliveries db'.deliveries ∧
    AttemptsStep db (.beginCallback deliveryId generation token now lease target)
      (.callback disposition) db'.attempts := by
  unfold beginCallbackAttempt at h
  split at h
  · cases h
  split at h
  next d o hd ho =>
    split at h
    · cases h
    next hgen =>
    have hmem := mem_of_find?_eq_some hd
    have hfound := find?_some hd
    simp only [Bool.and_eq_true, decide_eq_true_eq] at hfound
    simp only [ne_eq, Bool.or_eq_true, decide_eq_true_eq, not_or, not_not] at hgen
    obtain ⟨rfl, hsink⟩ := hfound
    obtain ⟨rfl, -⟩ := hgen
    have honly : ∀ e ∈ db.deliveries, decide (e.id = d.id) = true → e = d :=
      fun e he hid => eq_of_key_eq hnd he hmem (of_decide_eq_true hid)
    unfold beginLocked at h
    split at h
    · cases h
      exact ⟨rows_kept rfl, .kept rfl⟩
    next hdone =>
    split at h
    · cases h
      exact ⟨rows_kept rfl, .kept rfl⟩
    next hdead =>
    split at h
    · cases h
      exact ⟨rows_kept rfl, .kept rfl⟩
    split at h
    · cases h
      exact ⟨rows_kept rfl, .kept rfl⟩
    have hidle := idle_of_guards hsink hdone hdead
    split at h
    · cases h
      refine ⟨forall₂_updateWhere_hit (fun _ => .kept) fun e he hp => ?_, .kept rfl⟩
      rw [honly e he hp]
      exact .giveUp _ rfl hidle
    split at h
    · cases h
      refine ⟨forall₂_updateWhere_hit (fun _ => .kept) fun e he hp => ?_, .kept rfl⟩
      rw [honly e he hp]
      exact .giveUp _ rfl hidle
    next url version _ =>
    split at h
    · cases h
    cases h
    refine ⟨forall₂_updateWhere_hit (fun _ => .kept) fun e he hp => ?_, .start d hmem rfl⟩
    rw [honly e he hp]
    exact .start url version rfl rfl hidle
  · cases h

theorem finishCallbackAttempt_rows {attempt : Int}
    (h : finishCallbackAttempt deliveryId generation token attempt t db = .ok db') :
    List.Forall₂ (RowStep (.finishCallback deliveryId generation token attempt t) .done) db.deliveries db'.deliveries ∧
    AttemptsStep db (.finishCallback deliveryId generation token attempt t) .done db'.attempts := by
  unfold finishCallbackAttempt at h
  split at h
  · cases h
  next status outcome htarget =>
  dsimp only at h
  split at h
  · split at h
    · cases h
      refine ⟨forall₂_updateWhere_hit (fun _ => .kept) fun d _ hp => ?_, .finish outcome rfl⟩
      simp only [DeliveryRow.runsAttempt, Bool.and_eq_true, decide_eq_true_eq] at hp
      obtain ⟨⟨⟨⟨rfl, hsink⟩, rfl⟩, -⟩, rfl⟩ := hp
      exact .finish status outcome rfl htarget hsink
    · cases h
  · split at h
    · cases h
      exact ⟨rows_kept rfl, .kept rfl⟩
    · cases h

theorem markCallbackDLQPublished_rows (h : markCallbackDLQPublished deliveryId generation now db = .ok db') :
    Moves (.markDLQPublished deliveryId generation now) out db db' := by
  unfold markCallbackDLQPublished at h
  dsimp only at h
  split at h
  · cases h
    refine ⟨forall₂_updateWhere_hit (fun _ => .kept) fun d _ hp => ?_, rfl⟩
    simp only [Bool.and_eq_true, decide_eq_true_eq] at hp
    obtain ⟨⟨⟨rfl, rfl⟩, -⟩, hdead⟩ := hp
    exact .dlq _ _ rfl hdead
  · cases h

end Callbacks

/-! ## Stream sessions -/

section Streams

/-- **A granted assignment**: the delivery is open and no assignment of it is running. -/
structure Assigns (db db' : DeliveryDb) (connectionId token : String) (now lease maxProcessing : Int)
    (d : DeliveryRow) (assignment : Assignment) : Prop where
  mem : d ∈ db.deliveries
  sink : d.sink = .stream
  acked : d.status ≠ .acked
  dead : d.status ≠ .deadLetter
  free : ∀ a ∈ d.assignment, a.expiresAt ≤ now
  new : newAssignment connectionId token now lease maxProcessing = some assignment
  rows : db'.deliveries = updateWhere (fun x => x.id = d.id)
    (fun x => { x with
      assignment := some assignment
      attempts := d.attempts + 1
      updatedAt := max x.updatedAt now }) db.deliveries
  attempts : db'.attempts = db.attempts

variable {targetAppId connectionId : String} {lease : Int} {disposition : AssignmentDisposition}

theorem assignStreamDelivery_ok {maxProcessing : Int}
    (h : assignStreamDelivery deliveryId targetAppId connectionId token generation now lease
      maxProcessing db = .ok (disposition, db')) :
    disposition ≠ .assigned ∧ db' = db ∨ disposition = .assigned ∧ ∃ d assignment,
      d.id = deliveryId ∧ d.targetAppId = targetAppId ∧ (d.generation : Int) = generation ∧
        Assigns db db' connectionId token now lease maxProcessing d assignment := by
  unfold assignStreamDelivery at h
  split at h
  · cases h
  split at h
  · cases h
  next assignment hnew =>
  split at h
  · cases h
  next d hfind =>
  split at h
  · cases h
  next hstream =>
  split at h
  · cases h
  next hgen =>
  split at h
  · cases h
    exact .inl ⟨nofun, rfl⟩
  next hstatus =>
  split at h
  · cases h
    exact .inl ⟨nofun, rfl⟩
  next hfree =>
  cases h
  obtain rfl : d.id = deliveryId := by simpa using find?_some hfind
  simp only [ne_eq, Bool.or_eq_true, decide_eq_true_eq, not_or, not_not] at hstream
  simp only [Bool.or_eq_true, decide_eq_true_eq, not_or] at hstatus
  refine .inr ⟨rfl, d, assignment, rfl, hstream.1, not_not.mp hgen,
    mem_of_find?_eq_some hfind, hstream.2, hstatus.1, hstatus.2, fun a ha => ?_, hnew, rfl, rfl⟩
  rw [Option.any_eq_true] at hfree
  by_contra hrunning
  exact hfree ⟨a, ha, decide_eq_true (not_le.mp hrunning)⟩

theorem assignStreamDelivery_rows {maxProcessing : Int} (hnd : db.Keyed)
    (h : assignStreamDelivery deliveryId targetAppId connectionId token generation now lease
      maxProcessing db = .ok (disposition, db')) :
    Moves (.assign deliveryId targetAppId connectionId token generation now lease maxProcessing)
      (.assignment disposition) db db' := by
  rcases assignStreamDelivery_ok h with ⟨-, rfl⟩ | ⟨rfl, d, assignment, rfl, rfl, rfl, hassigns⟩
  · exact ⟨rows_kept rfl, rfl⟩
  refine ⟨?_, hassigns.attempts⟩
  rw [hassigns.rows]
  refine forall₂_updateWhere_hit (fun _ => .kept) fun e he hp => ?_
  obtain rfl : e = d := eq_of_key_eq hnd he hassigns.mem (of_decide_eq_true hp)
  exact .assign assignment rfl rfl hassigns.sink hassigns.new hassigns.acked hassigns.dead hassigns.free

theorem acknowledgeStreamDelivery_ok
    (h : acknowledgeStreamDelivery deliveryId targetAppId connectionId token generation now db = .ok db') :
    (∃ d ∈ db.deliveries, d.assignedTo deliveryId targetAppId connectionId token generation now = true) ∧
        db' = { db with
          deliveries := updateWhere (DeliveryRow.assignedTo deliveryId targetAppId connectionId token generation now)
            (fun d => { d with status := .acked, updatedAt := max d.updatedAt now }) db.deliveries } ∨
      (∃ d ∈ db.deliveries, d.id = deliveryId ∧ d.targetAppId = targetAppId ∧ d.sink = .stream ∧
        d.ackedBy connectionId token generation = true) ∧ db' = db := by
  unfold acknowledgeStreamDelivery at h
  dsimp only at h
  split at h
  next hany =>
    cases h
    exact .inl ⟨any_eq_true.mp hany, rfl⟩
  · split at h
    · cases h
    next d hfind =>
    split at h
    · cases h
    next hstream =>
    split at h
    next hacked =>
      cases h
      simp only [ne_eq, Bool.or_eq_true, decide_eq_true_eq, not_or, not_not] at hstream
      exact .inr ⟨⟨d, mem_of_find?_eq_some hfind, by simpa using find?_some hfind, hstream.1, hstream.2, hacked⟩, rfl⟩
    · cases h

theorem acknowledgeStreamDelivery_rows
    (h : acknowledgeStreamDelivery deliveryId targetAppId connectionId token generation now db = .ok db') :
    Moves (.acknowledge deliveryId targetAppId connectionId token generation now) .done db db' := by
  rcases acknowledgeStreamDelivery_ok h with ⟨-, rfl⟩ | ⟨-, rfl⟩
  · refine ⟨forall₂_updateWhere_hit (fun _ => .kept) fun d _ hp => ?_, rfl⟩
    obtain ⟨rfl, rfl, rfl, -⟩ := assignedTo_iff.mp hp
    exact .acknowledge rfl hp
  · exact ⟨rows_kept rfl, rfl⟩

theorem releaseStreamDelivery_rows
    (h : releaseStreamDelivery deliveryId targetAppId connectionId token generation now db = .ok db') :
    Moves (.release deliveryId targetAppId connectionId token generation now) .done db db' := by
  unfold releaseStreamDelivery at h
  dsimp only at h
  split at h
  · cases h
    refine ⟨forall₂_updateWhere_hit (fun _ => .kept) fun d _ hp => ?_, rfl⟩
    obtain ⟨rfl, rfl, rfl, -⟩ := assignedTo_iff.mp hp
    exact .release rfl hp
  · cases h

theorem progressStreamDelivery_rows
    (h : progressStreamDelivery deliveryId targetAppId connectionId token generation now lease db = .ok db') :
    Moves (.progress deliveryId targetAppId connectionId token generation now lease) .done db db' := by
  unfold progressStreamDelivery at h
  split at h
  · cases h
  dsimp only at h
  split at h
  · split at h
    · cases h
    next hordered =>
    cases h
    refine ⟨forall₂_updateWhere_hit (fun _ => .kept) fun d hd hp => ?_, rfl⟩
    rw [any_eq_true] at hordered
    cases hnext : d.assignment.bind (Assignment.progress (now + lease)) with
    | none =>
      refine absurd ⟨d, hd, ?_⟩ hordered
      rw [hp, hnext]
      rfl
    | some a' =>
      rw [Bool.and_eq_true] at hp
      obtain ⟨rfl, rfl, rfl, a, hholds⟩ := assignedTo_iff.mp hp.1
      rw [hholds.assignment] at hnext
      exact .progress a a' rfl hp.1 hholds.assignment hnext
  · cases h

end Streams

/-! ## Replay -/

variable {E : DeliveryEnv}

section Replay

/-- The row of a dead-lettered delivery is replayed, or it stays. -/
def ReplaysIn (now : Int) (d d' : DeliveryRow) : Prop :=
  d' = d ∨ (d.status = .deadLetter ∧ d' = d.replayed now)

theorem ReplaysIn.trans {d d₁ d₂ : DeliveryRow} (h : ReplaysIn now d d₁) (h' : ReplaysIn now d₁ d₂) :
    ReplaysIn now d d₂ := by
  rcases h with rfl | ⟨hdead, rfl⟩
  · exact h'
  -- a replayed row is pending, so it is not replayed again
  rcases h' with rfl | ⟨hpending, -⟩
  · exact .inr ⟨hdead, rfl⟩
  · cases hpending

/-- A replay of the row: a later generation of its message, pending again. -/
structure ReplaysTo (o o' : OutboxRow) : Prop where
  generation : o.generation < o'.generation
  id : o'.id = o.id
  deliveryId : o'.deliveryId = o.deliveryId
  payload : o'.payload = { o.payload with generation := o'.generation }
  attempts : o'.attempts = 0
  claim : o'.claim = none
  dispatchedAt : o'.dispatchedAt = none
  failedAt : o'.failedAt = none

/-- The row stays or is replayed. -/
def Reopened (o o' : OutboxRow) : Prop := o' = o ∨ ReplaysTo o o'

theorem Reopened.trans {o o₁ o₂ : OutboxRow} (h : Reopened o o₁) (h' : Reopened o₁ o₂) : Reopened o o₂ := by
  rcases h with rfl | h
  · exact h'
  rcases h' with rfl | h'
  · exact .inr h
  · refine .inr ⟨h.generation.trans h'.generation, h'.id.trans h.id, h'.deliveryId.trans h.deliveryId, ?_,
      h'.attempts, h'.claim, h'.dispatchedAt, h'.failedAt⟩
    rw [h'.payload, h.payload]

/-- What a replay does to both tables. -/
structure ReplayedTables (now : Int) (db db' : DeliveryDb) : Prop where
  rows : List.Forall₂ (ReplaysIn now) db.deliveries db'.deliveries
  attempts : db'.attempts = db.attempts
  outbox : List.Forall₂ Reopened db.outbox db'.outbox

theorem forall₂_reopened_refl (rows : List OutboxRow) : List.Forall₂ Reopened rows rows :=
  forall₂_same.mpr fun _ _ => .inl rfl

theorem replayOne_rows {d : DeliveryRow} {o : OutboxRow} (h : replayOne E now d o db = .ok db') :
    ReplayedTables now db db' := by
  unfold replayOne at h
  dsimp only at h
  split at h
  · cases h
  split at h
  · cases h
  split at h
  · cases h
  split at h
  · cases h
  cases h
  refine ⟨forall₂_updateWhere_hit (fun _ => .inl rfl) fun e _ hp => ?_, rfl,
    forall₂_updateWhere (fun _ => .inl rfl) fun _ => .inr ⟨Nat.lt_succ_self _, rfl, rfl, rfl, rfl, rfl, rfl, rfl⟩⟩
  simp only [Bool.and_eq_true, decide_eq_true_eq] at hp
  exact .inr ⟨hp.2, rfl⟩

theorem replayAll_rows {rows : List (DeliveryRow × OutboxRow)} (h : replayAll E now rows db = .ok db') :
    ReplayedTables now db db' := by
  induction rows generalizing db with
  | nil =>
    cases h
    exact ⟨forall₂_same.mpr fun _ _ => .inl rfl, rfl, forall₂_reopened_refl _⟩
  | cons row rows ih =>
    unfold replayAll at h
    split at h
    · cases h
    next hone =>
    have hfirst := replayOne_rows hone
    have hrest := ih h
    exact ⟨forall₂_trans (R := ReplaysIn now) (fun _ _ _ => .trans) hfirst.rows hrest.rows,
      hrest.attempts.trans hfirst.attempts,
      forall₂_trans (R := Reopened) (fun _ _ _ => .trans) hfirst.outbox hrest.outbox⟩

theorem mem_replayRows {ids : List String} {x : DeliveryRow × OutboxRow} :
    x ∈ replayRows ids db ↔ x.1 ∈ db.deliveries ∧ x.1.id ∈ ids ∧ x.1.status = .deadLetter ∧
      x.2 ∈ db.outbox ∧ x.2.deliveryId = x.1.id := by
  obtain ⟨d, o⟩ := x
  simp [replayRows, and_assoc]

theorem replayAdminDeadLetters_rows {command : ReplayCommand} {clock : Int} {items : List ReplayItem}
    {stored : Bool} (h : replayAdminDeadLetters E command clock db = .ok ((items, stored), db')) :
    List.Forall₂ (RowStep (.replay command clock) (.replayed items stored)) db.deliveries db'.deliveries ∧
      db'.attempts = db.attempts ∧ List.Forall₂ Reopened db.outbox db'.outbox := by
  unfold replayAdminDeadLetters at h
  split at h
  · cases h
  dsimp only at h
  split at h
  · split at h
    · cases h
    · cases h
      exact ⟨rows_kept rfl, rfl, forall₂_reopened_refl _⟩
  · split at h
    · cases h
    split at h
    · cases h
    next hall =>
    split at h
    · cases h
    cases h
    have hreplayed := replayAll_rows hall
    refine ⟨hreplayed.rows.imp fun d d' hrow => ?_, hreplayed.attempts, hreplayed.outbox⟩
    rcases hrow with rfl | ⟨hdead, rfl⟩
    · exact .kept
    · exact .replay rfl hdead

end Replay

/-! ## One step -/

section Step

variable {rows : List DeliveryRow}

theorem exec_of_ok (h : transact E db op = .ok (out, db')) :
    (deliverySystem E).out db op = out ∧ (deliverySystem E).next db op = db' := by
  have hexec : (deliverySystem E).exec db op = (out, db') := congrArg (settleTx id db) h
  rw [Mealy.out, Mealy.next, hexec]
  exact ⟨rfl, rfl⟩

theorem exec_of_error {e : StoreError} (h : transact E db op = .error e) :
    (deliverySystem E).out db op = .failed e ∧ (deliverySystem E).next db op = db := by
  have hexec : (deliverySystem E).exec db op = (.failed e, db) := congrArg (settleTx id db) h
  rw [Mealy.out, Mealy.next, hexec]
  exact ⟨rfl, rfl⟩

theorem transact_of_out (h : (deliverySystem E).out db op = out) (hok : ∀ e, out ≠ .failed e) :
    transact E db op = .ok (out, (deliverySystem E).next db op) := by
  cases ht : transact E db op with
  | error e => exact absurd (h.symm.trans (exec_of_error ht).1) (hok e)
  | ok => rw [← h, (exec_of_ok ht).1, (exec_of_ok ht).2]

/-- A publication adds a row; every other transaction works on the rows there are. -/
inductive DeliveriesStep (db : DeliveryDb) (op : DeliveryOp) (out : DeliveryOut) (rows : List DeliveryRow) : Prop where
  | insert (n : NewDelivery) (hop : op = .insert n)
      (hnew : ∀ d ∈ db.deliveries, d.id ≠ n.deliveryId) (hrows : rows = db.deliveries ++ [n.row])
  | update (hrows : List.Forall₂ (RowStep op out) db.deliveries rows)

/-- A publication adds a row to both tables. -/
structure Inserts (sha256 : String → String) (n : NewDelivery) (db db' : DeliveryDb) : Prop where
  new : ∀ d ∈ db.deliveries, d.id ≠ n.deliveryId
  fresh : ∀ o ∈ db.outbox, o.id ≠ (n.outboxRow sha256).id ∧ o.deliveryId ≠ n.deliveryId
  eq : db' = { db with deliveries := db.deliveries ++ [n.row], outbox := db.outbox ++ [n.outboxRow sha256] }

theorem insertDeliveryAndOutbox_rows {sha256 : String → String} {n : NewDelivery}
    (h : insertDeliveryAndOutbox sha256 n db = .ok db') : Inserts sha256 n db db' := by
  unfold insertDeliveryAndOutbox at h
  split at h
  · cases h
  next hclash =>
  split at h
  · cases h
  next hclash' =>
  cases h
  refine ⟨fun d hd hid => hclash (any_eq_true.mpr ⟨d, hd, ?_⟩),
    fun o ho => ⟨fun hid => hclash' (any_eq_true.mpr ⟨o, ho, ?_⟩),
      fun hid => hclash' (any_eq_true.mpr ⟨o, ho, ?_⟩)⟩, rfl⟩
  · simp [DeliveryRow.clashes, hid, NewDelivery.row]
  · simp [OutboxRow.clashes, hid]
  · simp [OutboxRow.clashes, hid, NewDelivery.outboxRow]

theorem transact_rows (hnd : db.Keyed) (h : transact E db op = .ok (out, db')) :
    DeliveriesStep db op out db'.deliveries ∧ AttemptsStep db op out db'.attempts := by
  -- outside callbacks the attempts stay as they are
  have hquiet : out.isReady = false → Moves op out db db' →
      DeliveriesStep db op out db'.deliveries ∧ AttemptsStep db op out db'.attempts :=
    fun hout hstep => ⟨.update hstep.1, hstep.2 ▸ .kept hout⟩
  cases op <;> obtain ⟨a, ha, heq⟩ := map_ok h <;> cases heq
  case insert =>
    obtain ⟨hnew, -, rfl⟩ := insertDeliveryAndOutbox_rows ha
    exact ⟨.insert _ rfl hnew rfl, .kept rfl⟩
  case beginCallback =>
    obtain ⟨hrows, hattempts⟩ := beginCallbackAttempt_rows hnd ha
    exact ⟨.update hrows, hattempts⟩
  case finishCallback =>
    obtain ⟨hrows, hattempts⟩ := finishCallbackAttempt_rows ha
    exact ⟨.update hrows, hattempts⟩
  case claim => exact hquiet rfl (claimOutbox_rows ha).rows
  case beginPublish => exact hquiet rfl (beginOutboxPublish_rows rfl ha).rows
  case markDispatched => exact hquiet rfl (markOutboxDispatched_rows rfl ha).rows
  case retry => exact hquiet rfl (retryOutbox_rows rfl ha).rows
  case fail => exact hquiet rfl (failOutbox_rows rfl ha).rows
  case markDLQPublished => exact hquiet rfl (markCallbackDLQPublished_rows ha)
  case assign => exact hquiet rfl (assignStreamDelivery_rows hnd ha)
  case acknowledge => exact hquiet rfl (acknowledgeStreamDelivery_rows ha)
  case release => exact hquiet rfl (releaseStreamDelivery_rows ha)
  case progress => exact hquiet rfl (progressStreamDelivery_rows ha)
  case replay =>
    obtain ⟨hrows, hattempts, -⟩ := replayAdminDeadLetters_rows ha
    exact hquiet rfl ⟨hrows, hattempts⟩

/-- **What a transaction does to the deliveries and their attempts.** -/
theorem exec_rows (E : DeliveryEnv) (hnd : db.Keyed) (op : DeliveryOp) :
    DeliveriesStep db op ((deliverySystem E).out db op) ((deliverySystem E).next db op).deliveries ∧
      AttemptsStep db op ((deliverySystem E).out db op) ((deliverySystem E).next db op).attempts := by
  cases h : transact E db op with
  | error e =>
    rw [(exec_of_error h).1, (exec_of_error h).2]
    exact ⟨.update (rows_kept rfl), .kept rfl⟩
  | ok r =>
    rw [(exec_of_ok h).1, (exec_of_ok h).2]
    exact transact_rows hnd h

theorem DeliveriesStep.ids_nodup (h : DeliveriesStep db op out rows) (hnd : db.Keyed) : (rows.map (·.id)).Nodup := by
  cases h with
  | insert n _ hnew hrows =>
    rw [hrows]
    exact nodup_keys_concat hnd hnew
  | update hrows =>
    rw [map_eq_of_forall₂ hrows (·.id) fun _ _ => RowStep.id]
    exact hnd

/-- A row after a step comes from one before it, or it is new. -/
theorem DeliveriesStep.back (h : DeliveriesStep db op out rows) {d' : DeliveryRow} (hd' : d' ∈ rows) :
    (∃ d ∈ db.deliveries, RowStep op out d d') ∨
      ∃ n : NewDelivery, d' = n.row ∧ ∀ d ∈ db.deliveries, d.id ≠ n.deliveryId := by
  cases h with
  | insert n _ hnew hrows =>
    rw [hrows, mem_append, mem_singleton] at hd'
    rcases hd' with hd' | rfl
    · exact .inl ⟨d', hd', .kept⟩
    · exact .inr ⟨n, rfl, hnew⟩
  | update hrows => exact .inl (exists_of_forall₂_right hrows hd')

theorem DeliveriesStep.forth (h : DeliveriesStep db op out rows) (hnd : db.Keyed) {d d' : DeliveryRow}
    (hd : d ∈ db.deliveries) (hd' : d' ∈ rows) (hid : d'.id = d.id) : RowStep op out d d' := by
  have hnd' := h.ids_nodup hnd
  cases h with
  | insert n _ hnew hrows =>
    have hmem : d ∈ rows := hrows ▸ mem_append_left _ hd
    rw [eq_of_key_eq hnd' hd' hmem hid]
    exact .kept
  | update hrows =>
    obtain ⟨e, he, hstep⟩ := exists_of_forall₂_left hrows hd
    rw [eq_of_key_eq hnd' hd' he (hid.trans hstep.id.symm)]
    exact hstep

end Step

end RelayHub.Delivery
