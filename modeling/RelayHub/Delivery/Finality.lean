import RelayHub.Delivery.Rows

/-! # RelayHub deliveries — terminal statuses

A delivery that is `acked`, `delivered` or `dead_letter` should keep that status until a replay opens
its next generation. The outbox statements guard against `acked` and `dead_letter` but not against
`delivered`, and `FinishCallbackAttempt` looks at the lease and not at the status. `finalStep` says, from
the state before a step, whether the step respects every terminal status; `terminal_final_iff` says
that the runs in which terminal statuses are final are those all of whose steps do. -/

namespace RelayHub.Delivery

open List Table

/-- Terminal statuses survive a step, unless it opens a new generation. -/
def KeepsFinal (db db' : DeliveryDb) : Prop :=
  ∀ d ∈ db.deliveries, ∀ d' ∈ db'.deliveries, d'.id = d.id → d.status.isTerminal = true →
    d'.generation = d.generation → d'.status = d.status

/-- The delivery of a claimed outbox row is not `delivered`. -/
def notDelivered (outboxId claimToken : String) (db : DeliveryDb) : Bool :=
  match claimedRow outboxId claimToken db with
  | none => true
  | some o => !db.deliveries.any fun d => d.id = o.deliveryId && d.status = .delivered

/-- The attempts of a claimed outbox row are used up. -/
def publishExhausted (outboxId claimToken : String) (maxAttempts : Int) (db : DeliveryDb) : Bool :=
  decide (1 ≤ maxAttempts) && (claimedRow outboxId claimToken db).any fun o =>
    decide (maxAttempts ≤ o.attempts)

/-- The step respects the terminal statuses of the state before it. -/
def finalStep (db : DeliveryDb) : DeliveryOp → Bool
  | .markDispatched outboxId claimToken _ => notDelivered outboxId claimToken db
  | .retry outboxId claimToken _ _ _ => notDelivered outboxId claimToken db
  | .fail outboxId claimToken _ _ => notDelivered outboxId claimToken db
  | .beginPublish outboxId claimToken _ maxAttempts =>
    !publishExhausted outboxId claimToken maxAttempts db || notDelivered outboxId claimToken db
  | .finishCallback deliveryId generation token attempt transition =>
    match transition.target with
    | none => true
    | some (status, _) => db.deliveries.all fun d =>
      !d.runsAttempt deliveryId generation token attempt transition.now || !d.status.isTerminal
        || d.status = status
  | _ => true

/-! ## Rows and updates -/

/-- What the schema and the guards keep true of a row. -/
structure RowOk (d : DeliveryRow) : Prop where
  delivered : d.status = .delivered → d.sink = .callback
  callback : d.sink = .callback → d.assignment = none
  stream : d.sink = .stream → d.callbackLease = none

/-- The attempt a delivery is at has a row. -/
def Logged (attempts : List AttemptRow) (d : DeliveryRow) : Prop :=
  ∃ a ∈ attempts, a.key = (d.id, d.generation, d.attempts)

/-- An update within a generation. -/
structure RowUpdate (f : DeliveryRow → DeliveryRow) : Prop where
  id : ∀ d, (f d).id = d.id
  generation : ∀ d, (f d).generation = d.generation

/-- Under unique ids an update by rows is final exactly if it is on each row it changes. -/
theorem keepsFinal_update {db db' : DeliveryDb} (hnd : db.Keyed)
    {p : DeliveryRow → Bool} {f : DeliveryRow → DeliveryRow}
    (hd : db'.deliveries = updateWhere p f db.deliveries) (hf : RowUpdate f) :
    KeepsFinal db db' ↔ ∀ d ∈ db.deliveries, p d = true → d.status.isTerminal = true → (f d).status = d.status := by
  constructor
  · intro h d hmem hp hterminal
    refine h d hmem (f d) ?_ (hf.id d) hterminal (hf.generation d)
    rw [hd]
    exact mem_updateWhere.mpr ⟨d, hmem, if_pos hp⟩
  · intro h d hmem d' hmem' heq hterminal _
    rw [hd] at hmem'
    rcases mem_updateWhere_cases hmem' with ⟨e, he, hp, rfl⟩ | ⟨he, -⟩
    · obtain rfl : e = d := eq_of_key_eq hnd he hmem ((hf.id e).symm.trans heq)
      exact h e he hp hterminal
    · obtain rfl : d' = d := eq_of_key_eq hnd he hmem heq
      rfl

theorem KeepsFinal.of_eq {db db' : DeliveryDb} (hnd : db.Keyed)
    (h : db'.deliveries = db.deliveries) : KeepsFinal db db' := by
  intro d hd d' hd' hid _ _
  rw [h] at hd'
  rw [eq_of_key_eq hnd hd' hd hid]

/-! ## The invariant -/

variable {E : DeliveryEnv} {db db' : DeliveryDb}

section Step

variable {op : DeliveryOp} {out : DeliveryOut} {d d' : DeliveryRow} {rows : List DeliveryRow}
  {attempts : List AttemptRow}

theorem RowStep.ok (h : RowStep op out d d') (hok : RowOk d) : RowOk d' := by
  cases h with
  | kept => exact hok
  | outbox status updatedAt _ _ _ _ _ hundelivered =>
    exact ⟨fun hdel => absurd hdel hundelivered, hok.callback, hok.stream⟩
  | giveUp => exact ⟨nofun, hok.callback, fun _ => rfl⟩
  | start url version _ _ hidle =>
    refine ⟨nofun, hok.callback, fun hstream => ?_⟩
    cases hidle.sink.symm.trans hstream
  | finish status outcome _ _ hsink => exact ⟨fun _ => hsink, hok.callback, fun _ => rfl⟩
  | dlq => exact ⟨hok.delivered, hok.callback, hok.stream⟩
  | assign assignment _ _ hsink =>
    exact ⟨hok.delivered, fun hcallback => (by cases hsink.symm.trans hcallback), hok.stream⟩
  | acknowledge => exact ⟨nofun, hok.callback, hok.stream⟩
  | release => exact ⟨nofun, fun _ => rfl, hok.stream⟩
  | progress a a' _ hheld =>
    obtain ⟨-, -, -, _, hholds⟩ := assignedTo_iff.mp hheld
    exact ⟨hok.delivered, fun hcallback => (by cases hholds.sink.symm.trans hcallback), hok.stream⟩
  | replay => exact ⟨nofun, fun _ => rfl, fun _ => rfl⟩

theorem NewDelivery.row_ok (n : NewDelivery) : RowOk n.row :=
  ⟨nofun, fun _ => rfl, fun _ => rfl⟩

/-- A lease that is there after a step was there before it, for the same attempt, or the step granted
it. -/
theorem RowStep.lease (h : RowStep op out d d') (hok : RowOk d) (hlease : d'.callbackLease ≠ none) :
    d.callbackLease ≠ none ∧ d'.generation = d.generation ∧ d'.attempts = d.attempts ∨
      out.isReady = true ∧ d'.generation = d.generation ∧ d'.attempts = d.attempts + 1 ∧
        ∃ token now lease target, op = .beginCallback d.id d.generation token now lease target := by
  cases h with
  | giveUp | finish | replay => exact absurd rfl hlease
  | start url version hop hout => exact .inr ⟨hout ▸ rfl, rfl, rfl, _, _, _, _, hop⟩
  | assign assignment _ _ hsink => exact absurd (hok.stream hsink) hlease
  | _ => exact .inl ⟨hlease, rfl, rfl⟩

theorem AttemptsStep.keys (h : AttemptsStep db op out attempts) {a : AttemptRow} (ha : a ∈ db.attempts) :
    ∃ a' ∈ attempts, a'.key = a.key := by
  cases h with
  | kept => exact ⟨a, ha, rfl⟩
  | start => exact ⟨a, mem_insertIgnore_of_mem ha, rfl⟩
  | finish =>
    refine ⟨_, mem_updateWhere_of_mem _ ha, ?_⟩
    split <;> rfl

theorem AttemptsStep.granted {token : String} {now lease : Int} {target : CallbackTarget}
    (h : AttemptsStep db op out attempts) (hnd : db.Keyed) (hd : d ∈ db.deliveries)
    (hready : out.isReady = true) (hop : op = .beginCallback d.id d.generation token now lease target) :
    ∃ a ∈ attempts, a.key = (d.id, d.generation, d.attempts + 1) := by
  cases h with
  | kept hstart => cases hready.symm.trans hstart
  | start d₂ hd₂ hop₂ =>
    obtain ⟨hid, -⟩ := DeliveryOp.beginCallback.inj (hop.symm.trans hop₂)
    obtain rfl : d = d₂ := eq_of_key_eq hnd hd hd₂ hid
    exact exists_key_insertIgnore _ _
  | finish _ hop₂ => cases hop.symm.trans hop₂

/-- The invariant of the system. -/
structure Inv (db : DeliveryDb) : Prop where
  ids : (db.deliveries.map (·.id)).Nodup
  rows : ∀ d ∈ db.deliveries, RowOk d
  /-- A running callback attempt has its row. -/
  leases : ∀ d ∈ db.deliveries, d.callbackLease ≠ none → Logged db.attempts d

theorem DeliveriesStep.rows_ok (h : DeliveriesStep db op out db'.deliveries)
    (hok : ∀ d ∈ db.deliveries, RowOk d) : ∀ d ∈ db'.deliveries, RowOk d := by
  intro d' hd'
  rcases h.back hd' with ⟨d, hd, hstep⟩ | ⟨n, rfl, -⟩
  · exact hstep.ok (hok d hd)
  · exact n.row_ok

theorem Inv.step (hinv : Inv db) (hrows : DeliveriesStep db op out db'.deliveries)
    (hattempts : AttemptsStep db op out db'.attempts) : Inv db' := by
  refine ⟨hrows.ids_nodup hinv.ids, hrows.rows_ok hinv.rows, fun d' hd' hlease => ?_⟩
  -- a lease that was there keeps the row of its attempt
  have hkeeps : ∀ d ∈ db.deliveries, d.callbackLease ≠ none → d'.id = d.id →
      d'.generation = d.generation → d'.attempts = d.attempts → Logged db'.attempts d' := by
    intro d hd hold hid hgen hatt
    obtain ⟨a, ha, hkey⟩ := hinv.leases d hd hold
    obtain ⟨a', ha', hkey'⟩ := hattempts.keys ha
    exact ⟨a', ha', by rw [hkey', hkey, hid, hgen, hatt]⟩
  rcases hrows.back hd' with ⟨d, hd, hstep⟩ | ⟨n, rfl, -⟩
  · rcases hstep.lease (hinv.rows d hd) hlease with
      ⟨hold, hgen, hatt⟩ | ⟨hready, hgen, hatt, token, now, lease, target, hop⟩
    · exact hkeeps d hd hold hstep.id hgen hatt
    · obtain ⟨a, ha, hkey⟩ := hattempts.granted hinv.ids hd hready hop
      exact ⟨a, ha, by rw [hkey, hstep.id, hgen, hatt]⟩
  · exact absurd rfl hlease

theorem reach_inv (E : DeliveryEnv) (ops : List DeliveryOp) : Inv (reach E ops) :=
  (deliverySystem E).run_induction (P := Inv) ⟨by simp, by simp, by simp⟩
    (fun _ op hinv => hinv.step (exec_rows E hinv.ids op).1 (exec_rows E hinv.ids op).2) ops

/-! ## Generations -/

theorem DeliveriesStep.kept (h : DeliveriesStep db op out rows) (hd : d ∈ db.deliveries) :
    ∃ d' ∈ rows, d'.id = d.id := by
  cases h with
  | insert _ _ _ hrows => exact ⟨d, hrows ▸ mem_append_left _ hd, rfl⟩
  | update hrows =>
    obtain ⟨d', hd', hstep⟩ := exists_of_forall₂_left hrows hd
    exact ⟨d', hd', hstep.id⟩

/-- **Only a replay changes a generation**, from `dead_letter` and upwards. -/
theorem RowStep.generation (h : RowStep op out d d') : d'.generation = d.generation ∨
    (op.isReplay = true ∧ d.status = .deadLetter ∧ d'.generation = d.generation + 1) := by
  cases h with
  | replay hop hdead => exact .inr ⟨hop ▸ rfl, hdead, rfl⟩
  | _ => exact .inl rfl

/-- A terminal status is kept, unless the transaction is one of those that may reopen. -/
theorem RowStep.final (h : RowStep op out d d') (hok : RowOk d) (hop : op.mayReopen = false)
    (hterminal : d.status.isTerminal = true) (hgen : d'.generation = d.generation) :
    d'.status = d.status := by
  cases h with
  | kept | dlq | assign | progress => rfl
  | outbox _ _ hmay => cases hmay.symm.trans hop
  | finish _ _ heq =>
    rw [heq] at hop
    cases hop
  | giveUp reason _ hidle | start url version _ _ hidle => cases hidle.status.symm.trans hterminal
  | acknowledge _ hheld | release _ hheld =>
    -- an assigned row is a stream row, and it is open
    obtain ⟨-, -, -, _, hholds⟩ := assignedTo_iff.mp hheld
    cases hstatus : d.status with
    | acked => exact absurd hstatus hholds.acked
    | deadLetter => exact absurd hstatus hholds.dead
    | delivered => cases hholds.sink.symm.trans (hok.delivered hstatus)
    | _ => simp [hstatus, DeliveryStatus.isTerminal] at hterminal
  | replay =>
    have hnext : d.generation + 1 = d.generation := hgen
    omega

end Step

/-! ## The transactions that may reopen -/

theorem notDelivered_iff {outboxId claimToken : String} {o : OutboxRow}
    (ho : claimedRow outboxId claimToken db = some o) : notDelivered outboxId claimToken db = true ↔
      ∀ d ∈ db.deliveries, d.id = o.deliveryId → d.status ≠ .delivered := by
  simp [notDelivered, ho]

theorem notDelivered_none {outboxId claimToken : String}
    (ho : claimedRow outboxId claimToken db = none) : notDelivered outboxId claimToken db = true := by
  simp [notDelivered, ho]

/-- `dispatched` and `retrying` overwrite `delivered`, and nothing else that is terminal. -/
theorem advanceOpen_final (deliveryId : String) (status : DeliveryStatus) (stamp : Int → Int)
    (hnd : db.Keyed) (hstatus : status.isTerminal = false)
    (hd : db'.deliveries = advanceOpen deliveryId status stamp db.deliveries) :
    KeepsFinal db db' ↔ ∀ d ∈ db.deliveries, d.id = deliveryId → d.status ≠ .delivered := by
  rw [advanceOpen] at hd
  rw [keepsFinal_update hnd hd ⟨fun _ => rfl, fun _ => rfl⟩]
  constructor
  · intro h d hmem hid hdelivered
    have hkept : status = d.status := h d hmem (by simp [hid, hdelivered])
      (by simp [hdelivered, DeliveryStatus.isTerminal])
    rw [hkept, hdelivered] at hstatus
    cases hstatus
  · intro h d hmem hp hterminal
    simp only [Bool.and_eq_true, decide_eq_true_eq] at hp
    cases hopen : d.status with
    | acked => exact absurd hopen hp.1.2
    | deadLetter => exact absurd hopen hp.2
    | delivered => exact absurd hopen (h d hmem hp.1.1)
    | _ =>
      rw [hopen] at hterminal
      cases hterminal

section

variable (hinv : Inv db)

include hinv

/-- A terminal outbox failure overwrites `delivered`. It goes through on such a row, which is a
callback row and so has no assignment. -/
theorem failRow_final (o : OutboxRow) (now : Int) (reason : String) :
    KeepsFinal db (match failRow o now reason db with | .error _ => db | .ok db' => db') ↔
      ∀ d ∈ db.deliveries, d.id = o.deliveryId → d.status ≠ .delivered := by
  unfold failRow deadLetterUnacked
  by_cases hassigned : (db.deliveries.any fun d =>
      (decide (d.id = o.deliveryId) && decide (d.status ≠ .acked)) && !d.assignmentColumns.cleared.complete) = true
  · rw [if_pos hassigned]
    refine iff_of_true (.of_eq hinv.ids rfl) fun d hd hid hdelivered => ?_
    obtain ⟨e, he, hhit⟩ := any_eq_true.mp hassigned
    simp only [Bool.and_eq_true, decide_eq_true_eq] at hhit
    obtain rfl : e = d := eq_of_key_eq hinv.ids he hd (hhit.1.1.trans hid.symm)
    have hok := hinv.rows e he
    rw [(cleared_complete_iff e).mpr (hok.callback (hok.delivered hdelivered))] at hhit
    cases hhit.2
  · rw [if_neg hassigned]
    rw [keepsFinal_update (f := .deadLettered now) hinv.ids rfl ⟨fun _ => rfl, fun _ => rfl⟩]
    constructor
    · intro h d hd hid hdelivered
      have hkept : .deadLetter = d.status := h d hd (by simp [hid, hdelivered])
        (by simp [hdelivered, DeliveryStatus.isTerminal])
      rw [hdelivered] at hkept
      cases hkept
    · intro h d hd hp hterminal
      simp only [Bool.and_eq_true, decide_eq_true_eq] at hp
      cases hstatus : d.status with
      | deadLetter => rfl
      | acked => exact absurd hstatus hp.2
      | delivered => exact absurd hstatus (h d hd hp.1)
      | _ =>
        rw [hstatus] at hterminal
        cases hterminal

variable (outboxId claimToken : String)

theorem markDispatched_final (now : Int) :
    KeepsFinal db ((deliverySystem E).next db (.markDispatched outboxId claimToken now)) ↔
      finalStep db (.markDispatched outboxId claimToken now) = true := by
  rw [next_eq]
  simp only [transact, finalStep, markOutboxDispatched]
  cases ho : claimedRow outboxId claimToken db with
  | some o =>
    have hargs : ¬ ((decide (outboxId = "") || decide (claimToken = "")) = true) := by
      intro hempty
      simp [claimedRow, hempty] at ho
    rw [if_neg hargs, notDelivered_iff ho]
    exact advanceOpen_final o.deliveryId .dispatched (max · now) hinv.ids rfl rfl
  | none =>
    refine iff_of_true (.of_eq hinv.ids ?_) (notDelivered_none ho)
    split
    · rfl
    next hr =>
    obtain ⟨db₁, hdb₁, rfl⟩ := map_ok hr
    split at hdb₁
    · cases hdb₁
    dsimp only at hdb₁
    split at hdb₁
    · cases hdb₁
    split at hdb₁
    · cases hdb₁
      rfl
    · cases hdb₁

theorem retry_final (availableAt : Int) (reason : String) (clock : Int) :
    KeepsFinal db ((deliverySystem E).next db (.retry outboxId claimToken availableAt reason clock)) ↔
      finalStep db (.retry outboxId claimToken availableAt reason clock) = true := by
  rw [next_eq]
  simp only [transact, finalStep, retryOutbox]
  cases ho : claimedRow outboxId claimToken db with
  | some o =>
    rw [notDelivered_iff ho]
    exact advanceOpen_final o.deliveryId .retrying (fun _ => clock) hinv.ids rfl rfl
  | none => exact iff_of_true (.of_eq hinv.ids rfl) (notDelivered_none ho)

theorem fail_final (now : Int) (reason : String) :
    KeepsFinal db ((deliverySystem E).next db (.fail outboxId claimToken now reason)) ↔
      finalStep db (.fail outboxId claimToken now reason) = true := by
  rw [next_eq]
  simp only [transact, finalStep, failOutbox]
  cases ho : claimedRow outboxId claimToken db with
  | some o =>
    rw [notDelivered_iff ho, ← failRow_final hinv o now (safeOutboxReason reason)]
    dsimp only
    cases failRow o now (safeOutboxReason reason) db <;> rfl
  | none => exact iff_of_true (.of_eq hinv.ids rfl) (notDelivered_none ho)

theorem beginPublish_final (now maxAttempts : Int) :
    KeepsFinal db ((deliverySystem E).next db (.beginPublish outboxId claimToken now maxAttempts)) ↔
      finalStep db (.beginPublish outboxId claimToken now maxAttempts) = true := by
  rw [next_eq]
  simp only [transact, finalStep, beginOutboxPublish]
  by_cases hmax : maxAttempts < 1
  · have hlow : ¬ 1 ≤ maxAttempts := by omega
    rw [if_pos hmax]
    exact iff_of_true (.of_eq hinv.ids rfl) (by simp [publishExhausted, hlow])
  rw [if_neg hmax]
  have hlow : 1 ≤ maxAttempts := by omega
  cases ho : claimedRow outboxId claimToken db with
  | none =>
    exact iff_of_true (.of_eq hinv.ids rfl) (by simp [notDelivered_none ho])
  | some o =>
    dsimp only
    by_cases hspent : maxAttempts ≤ (o.attempts : Int)
    · have hexhausted : publishExhausted outboxId claimToken maxAttempts db = true := by
        simp [publishExhausted, hlow, ho, hspent]
      rw [if_pos hspent, hexhausted, Bool.not_true, Bool.false_or, notDelivered_iff ho,
        ← failRow_final hinv o now "max_attempts"]
      cases failRow o now "max_attempts" db <;> rfl
    · have hleft : publishExhausted outboxId claimToken maxAttempts db = false := by
        simp [publishExhausted, ho, hspent]
      rw [if_neg hspent, hleft]
      exact iff_of_true (.of_eq hinv.ids rfl) rfl

/-- A running attempt has its row, so the finish that finds the delivery goes through. -/
theorem exists_attempt {d : DeliveryRow} (hd : d ∈ db.deliveries) {deliveryId token : String}
    {generation attempt now : Int} (hrun : d.runsAttempt deliveryId generation token attempt now = true) :
    db.attempts.any (AttemptRow.isAttempt deliveryId generation attempt) = true := by
  simp only [DeliveryRow.runsAttempt, Bool.and_eq_true, decide_eq_true_eq] at hrun
  obtain ⟨⟨⟨⟨hid, -⟩, hgen⟩, hlease⟩, hattempt⟩ := hrun
  have hsome : d.callbackLease ≠ none := by
    intro hnone
    rw [hnone] at hlease
    cases hlease
  obtain ⟨a, ha, hkey⟩ := hinv.leases d hd hsome
  simp only [AttemptRow.key, Prod.mk.injEq] at hkey
  refine any_eq_true.mpr ⟨a, ha, ?_⟩
  simp [AttemptRow.isAttempt, hkey.1, hkey.2.1, hkey.2.2, hid, hgen, hattempt]

theorem finishCallback_final (deliveryId : String) (generation : Int) (token : String) (attempt : Int)
    (t : CallbackAttemptTransition) :
    KeepsFinal db ((deliverySystem E).next db (.finishCallback deliveryId generation token attempt t)) ↔
      finalStep db (.finishCallback deliveryId generation token attempt t) = true := by
  rw [next_eq]
  simp only [transact, finalStep, finishCallbackAttempt]
  cases htarget : t.target with
  | none => exact iff_of_true (.of_eq hinv.ids rfl) rfl
  | some target =>
    obtain ⟨status, outcome⟩ := target
    dsimp only
    by_cases hany : db.deliveries.any (DeliveryRow.runsAttempt deliveryId generation token attempt t.now) = true
    · obtain ⟨d₀, hd₀, hrun₀⟩ := any_eq_true.mp hany
      rw [if_pos hany, if_pos (exists_attempt hinv hd₀ hrun₀)]
      show KeepsFinal db { db with deliveries := _, attempts := _ } ↔ _
      rw [keepsFinal_update (f := .finish status t) hinv.ids rfl ⟨fun _ => rfl, fun _ => rfl⟩, all_eq_true]
      refine forall_congr' fun d => forall_congr' fun _ => ?_
      simp only [DeliveryRow.finish, Bool.or_eq_true, Bool.not_eq_true', decide_eq_true_eq]
      cases d.runsAttempt deliveryId generation token attempt t.now <;> cases d.status.isTerminal <;>
        simp [eq_comm]
    · rw [if_neg hany]
      refine iff_of_true (.of_eq hinv.ids ?_) ?_
      · split
        · rfl
        next hr =>
        obtain ⟨db₁, hdb₁, rfl⟩ := map_ok hr
        split at hdb₁
        · cases hdb₁
          rfl
        · cases hdb₁
      · rw [all_eq_true]
        intro d hd
        have hmiss : d.runsAttempt deliveryId generation token attempt t.now = false := by
          by_contra hrun
          exact hany (any_eq_true.mpr ⟨d, hd, by simpa using hrun⟩)
        simp [hmiss]

end

/-- **One step is final exactly if `finalStep` holds before it.** -/
theorem step_final_iff (E : DeliveryEnv) (hinv : Inv db) (op : DeliveryOp) :
    KeepsFinal db ((deliverySystem E).next db op) ↔ finalStep db op = true := by
  by_cases hop : op.mayReopen = true
  · cases op with
    | markDispatched => exact markDispatched_final hinv _ _ _
    | retry => exact retry_final hinv _ _ _ _ _
    | fail => exact fail_final hinv _ _ _ _
    | beginPublish => exact beginPublish_final hinv _ _ _ _
    | finishCallback =>
      exact finishCallback_final hinv _ _ _ _ _
    | _ => cases hop
  · have hsafe : finalStep db op = true := by
      cases op <;> first | rfl | exact absurd rfl hop
    refine iff_of_true (fun d hd d' hd' hid hterminal hgen => ?_) hsafe
    exact ((exec_rows E hinv.ids op).1.forth hinv.ids hd hd' hid).final (hinv.rows d hd)
      (Bool.eq_false_iff.mpr hop) hterminal hgen

/-! ## Runs -/

section Runs

variable {before : List DeliveryOp}

section

variable (E : DeliveryEnv)

theorem reach_concat (ops : List DeliveryOp) (op : DeliveryOp) :
    reach E (ops ++ [op]) = (deliverySystem E).next (reach E ops) op :=
  (deliverySystem E).run_concat {} ops op

theorem reach_step (ops : List DeliveryOp) (op : DeliveryOp) :
    DeliveriesStep (reach E ops) op ((deliverySystem E).out (reach E ops) op) (reach E (ops ++ [op])).deliveries := by
  rw [reach_concat]
  exact (exec_rows E (reach_inv E ops).ids op).1

/-- The step a run takes next. -/
def stepAt (ops : List DeliveryOp) (op : DeliveryOp) :
    Transition DeliveryDb DeliveryOp DeliveryOut :=
  ⟨reach E ops, op, (deliverySystem E).out (reach E ops) op, reach E (ops ++ [op])⟩

theorem transitions_reach (ops : List DeliveryOp) (op : DeliveryOp) : (deliverySystem E).transitions {} (ops ++ [op])
      = (deliverySystem E).transitions {} ops ++ [stepAt E ops op] := by
  rw [Mealy.transitions_concat, stepAt, reach_concat]
  rfl

end

/-- Along a run a delivery keeps its row, and its generation only grows. -/
theorem reach_kept (mid : List DeliveryOp) {d : DeliveryRow} (hd : d ∈ (reach E before).deliveries) :
    ∃ d' ∈ (reach E (before ++ mid)).deliveries, d'.id = d.id ∧ d.generation ≤ d'.generation := by
  induction mid using reverseRecOn with
  | nil =>
    rw [append_nil]
    exact ⟨d, hd, rfl, le_refl _⟩
  | append_singleton mid op ih =>
    obtain ⟨d₁, hd₁, hid₁, hgen₁⟩ := ih
    have hstep := reach_step E (before ++ mid) op
    rw [← append_assoc]
    obtain ⟨d₂, hd₂, hid₂⟩ := hstep.kept hd₁
    refine ⟨d₂, hd₂, hid₂.trans hid₁, ?_⟩
    have hgen := (hstep.forth (reach_inv E (before ++ mid)).ids hd₁ hd₂ hid₂).generation
    omega

/-- **Final steps make a final run.** The induction is on the steps after the delivery was seen; a
generation that is the same at both ends was the same in between. -/
theorem final_of_steps {mid : List DeliveryOp}
    (hsteps : ∀ as op bs, mid = as ++ op :: bs → KeepsFinal (reach E (before ++ as)) (reach E (before ++ (as ++ [op]))))
    {d d' : DeliveryRow} (hd : d ∈ (reach E before).deliveries) (hd' : d' ∈ (reach E (before ++ mid)).deliveries)
    (hid : d'.id = d.id) (hterminal : d.status.isTerminal = true) (hgen : d'.generation = d.generation) :
    d'.status = d.status := by
  induction mid using reverseRecOn generalizing d' with
  | nil =>
    rw [append_nil] at hd'
    rw [eq_of_key_eq (reach_inv E before).ids hd' hd hid]
  | append_singleton mid op ih =>
    obtain ⟨d₁, hd₁, hid₁, hle₁⟩ := reach_kept mid hd
    have hstep := reach_step E (before ++ mid) op
    rw [← append_assoc] at hd'
    have hid₂ : d'.id = d₁.id := hid.trans hid₁.symm
    have hgrow := (hstep.forth (reach_inv E (before ++ mid)).ids hd₁ hd' hid₂).generation
    have hgen₁ : d₁.generation = d.generation := by omega
    have hstatus₁ : d₁.status = d.status := by
      refine ih (fun as op' bs hsplit => hsteps as op' (bs ++ [op]) ?_) hd₁ hid₁ hgen₁
      rw [hsplit, append_assoc, cons_append]
    have hlast := hsteps mid op [] rfl
    rw [← append_assoc] at hlast
    rw [← hstatus₁]
    exact hlast d₁ hd₁ d' hd' hid₂ (hstatus₁ ▸ hterminal) (hgen.trans hgen₁.symm)

end Runs

/-- **Terminal deliveries.** In every run only a replay changes a generation, and only that of a
dead-lettered delivery. And a delivery that is terminal keeps its status as long as its generation,
throughout the run, if and only if every step of the run meets `finalStep`. -/
theorem terminal_final_iff (E : DeliveryEnv) (ops : List DeliveryOp) :
    (∀ t ∈ (deliverySystem E).transitions {} ops, ∀ d ∈ t.pre.deliveries, ∀ d' ∈ t.post.deliveries,
      d'.id = d.id → d'.generation ≠ d.generation → t.input.isReplay = true ∧ d.status = .deadLetter) ∧
    ((∀ before mid after, ops = before ++ mid ++ after → ∀ d ∈ (reach E before).deliveries,
      ∀ d' ∈ (reach E (before ++ mid)).deliveries, d'.id = d.id → d.status.isTerminal = true →
        d'.generation = d.generation → d'.status = d.status) ↔
      ∀ t ∈ (deliverySystem E).transitions {} ops, finalStep t.pre t.input = true) := by
  refine ⟨fun t ht d hd d' hd' hid hgen => ?_, fun hfinal t ht => ?_, fun hsteps => ?_⟩
  · obtain ⟨before, after, -, hpre, -, hpost⟩ := Mealy.exists_split_of_mem_transitions _ ht
    have hinv : Inv t.pre := hpre ▸ reach_inv E before
    have hcase := (exec_rows E hinv.ids t.input).1
    rw [← hpost] at hcase
    rcases (hcase.forth hinv.ids hd hd' hid).generation with hsame | ⟨hreplay, hdead, -⟩
    · exact absurd hsame hgen
    · exact ⟨hreplay, hdead⟩
  · obtain ⟨before, after, hsplit, hpre, -, -⟩ := Mealy.exists_split_of_mem_transitions _ ht
    have hreach : t.pre = reach E before := hpre
    have hinv : Inv t.pre := hreach ▸ reach_inv E before
    -- one step is a run of its own
    refine (step_final_iff E hinv t.input).mp fun d hd d' hd' => ?_
    refine hfinal before [t.input] after (by rw [hsplit]; simp) d (hreach ▸ hd) d' ?_
    rw [reach_concat, ← hreach]
    exact hd'
  · intro before mid after hsplit d hd d' hd' hid hterminal hgen
    refine final_of_steps (fun as op bs hmid => ?_) hd hd' hid hterminal hgen
    have hmem := (deliverySystem E).mem_transitions_of_split {} (before ++ as) op (bs ++ after)
    have hwhole : before ++ as ++ op :: (bs ++ after) = ops := by
      rw [hsplit, hmid]
      simp
    rw [hwhole] at hmem
    rw [← append_assoc, reach_concat]
    exact (step_final_iff E (reach_inv E (before ++ as)) op).mpr (hsteps _ hmem)

/-! ## A race

The dispatcher publishes the message of a delivery; the callback worker receives it, calls the
application and records the success before the dispatcher marks its outbox row. -/

def sampleTarget : CallbackTarget where
  eventExpiresAt := 1000 * second
  enabled := true
  callbackURL := some "https://app.example/hook"
  deliveryMode := .callback
  hasSecret := true
  decrypts := true
  credentialVersion := some 1

def deliveredRun : List DeliveryOp :=
  [.insert sampleDelivery, .claim second 0 "claim_1" 10 [],
    .beginPublish (outboxIdentities sampleEnv.sha256 "dlv_1").1 "claim_1" second 10,
    .beginCallback "dlv_1" 1 "token_1" (2 * second) (30 * second) sampleTarget,
    .finishCallback "dlv_1" 1 "token_1" 1 ⟨.delivered, 3 * second, none, ""⟩]

def markLate : DeliveryOp :=
  .markDispatched (outboxIdentities sampleEnv.sha256 "dlv_1").1 "claim_1" (4 * second)

/-- The delivery is `delivered`, and the dispatcher makes it `dispatched` again. -/
theorem delivered_reopened :
    (∃ d ∈ (reach sampleEnv deliveredRun).deliveries, d.id = "dlv_1" ∧ d.status = .delivered ∧ d.generation = 1) ∧
    ∃ d ∈ (reach sampleEnv (deliveredRun ++ [markLate])).deliveries, d.id = "dlv_1" ∧
      d.status = .dispatched ∧ d.generation = 1 :=
  ⟨by decide, by decide⟩

end RelayHub.Delivery
