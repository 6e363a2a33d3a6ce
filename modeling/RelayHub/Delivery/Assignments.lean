import RelayHub.Delivery.Finality

/-! # RelayHub deliveries — stream assignments

A stream connection owns a delivery while its assignment runs: `AssignStreamDelivery` grants it, the
holder may extend it with `ProgressStreamDelivery` up to its maximum, and ends it with
`ReleaseStreamDelivery` or `AcknowledgeStreamDelivery`. Every call names its own connection, token,
generation and clock. `stream_assignments_exclusive` says what holds of every run, whatever the calls
are and whatever else runs beside them. -/

namespace RelayHub.Delivery

open List Table DeliveryRow

section Steps

variable {E : DeliveryEnv} {db db' : DeliveryDb} {op : DeliveryOp} {out : DeliveryOut} {d d' : DeliveryRow}
  {connectionId token : String} {now : Int}

/-! ## Statuses -/

/-- Only streams acknowledge, and a dead-lettered delivery is not assigned. -/
structure StatusOk (d : DeliveryRow) : Prop where
  acked : d.status = .acked → d.sink = .stream
  dead : d.status = .deadLetter → d.assignment = none

theorem RowStep.statusOk (h : RowStep op out d d') (hrow : RowOk d) (hok : StatusOk d) : StatusOk d' := by
  cases h with
  | kept => exact hok
  | outbox _ _ _ _ _ hassigned hopen => exact ⟨fun hacked => absurd hacked hopen, hassigned⟩
  | giveUp _ _ hidle => exact ⟨nofun, fun _ => hrow.callback hidle.sink⟩
  | start | release | replay => exact ⟨nofun, nofun⟩
  | finish status outcome _ htarget hsink =>
    refine ⟨fun hacked => ?_, fun _ => hrow.callback hsink⟩
    rcases target_cases htarget with ⟨rfl, -⟩ | ⟨rfl, -⟩ | ⟨rfl, -⟩ <;> cases hacked
  | dlq => exact ⟨hok.acked, hok.dead⟩
  | assign _ _ _ _ _ hacked hdead => exact ⟨fun h => absurd h hacked, fun h => absurd h hdead⟩
  | acknowledge _ hheld =>
    obtain ⟨-, -, -, _, hholds⟩ := assignedTo_iff.mp hheld
    exact ⟨fun _ => hholds.sink, nofun⟩
  | progress _ _ _ hheld =>
    obtain ⟨-, -, -, _, hholds⟩ := assignedTo_iff.mp hheld
    exact ⟨hok.acked, fun h => absurd h hholds.dead⟩

/-- **An acknowledged row never changes.** -/
theorem RowStep.acked (h : RowStep op out d d') (hok : StatusOk d) (hacked : d.status = .acked) : d' = d := by
  cases h with
  | kept => rfl
  | outbox _ _ _ hopen | assign _ _ _ _ _ hopen => exact absurd hacked hopen
  | giveUp _ _ hidle | start _ _ _ _ hidle =>
    have hopen := hidle.status
    rw [hacked] at hopen
    cases hopen
  | finish _ _ _ _ hsink => cases (hok.acked hacked).symm.trans hsink
  | dlq _ _ _ hdead | replay _ hdead => cases hacked.symm.trans hdead
  | acknowledge _ hheld | release _ hheld | progress _ _ _ hheld =>
    obtain ⟨-, -, -, _, hholds⟩ := assignedTo_iff.mp hheld
    exact absurd hacked hholds.acked

theorem reach_statusOk (E : DeliveryEnv) (ops : List DeliveryOp) : ∀ d ∈ (reach E ops).deliveries, StatusOk d := by
  induction ops using reverseRecOn with
  | nil => exact fun d hd => (by cases hd)
  | append_singleton ops op ih =>
    intro d' hd'
    rcases (reach_step E ops op).back hd' with ⟨d, hd, hrow⟩ | ⟨n, rfl, -⟩
    · exact hrow.statusOk ((reach_inv E ops).rows d hd) (ih d hd)
    · exact ⟨nofun, nofun⟩

theorem acked_kept {before : List DeliveryOp} (mid : List DeliveryOp)
    (hd : d ∈ (reach E before).deliveries) (hacked : d.status = .acked) :
    d ∈ (reach E (before ++ mid)).deliveries := by
  induction mid using reverseRecOn with
  | nil => rwa [append_nil]
  | append_singleton mid op ih =>
    rw [← append_assoc]
    have hstep := reach_step E (before ++ mid) op
    obtain ⟨d', hd', hid⟩ := hstep.kept ih
    have hrow := hstep.forth (reach_inv E _).ids ih hd' hid
    rwa [hrow.acked (reach_statusOk E _ d ih) hacked] at hd'

/-! ## Who writes an assignment -/

/-- The calls of the holder of an assignment. -/
inductive HolderCall : DeliveryOp → String → String → String → String → Int → Int → Prop where
  | acknowledge (deliveryId targetAppId connectionId token : String) (generation now : Int) :
      HolderCall (.acknowledge deliveryId targetAppId connectionId token generation now) deliveryId targetAppId
        connectionId token generation now
  | release (deliveryId targetAppId connectionId token : String) (generation now : Int) :
      HolderCall (.release deliveryId targetAppId connectionId token generation now) deliveryId targetAppId
        connectionId token generation now
  | progress (deliveryId targetAppId connectionId token : String) (generation now lease : Int) :
      HolderCall (.progress deliveryId targetAppId connectionId token generation now lease) deliveryId
        targetAppId connectionId token generation now

/-- **Only the holder's calls take effect**, and only while the assignment runs. -/
theorem RowStep.holder {deliveryId targetAppId : String} {generation : Int} (h : RowStep op out d d')
    (hcall : HolderCall op deliveryId targetAppId connectionId token generation now) (hne : d' ≠ d) :
    d.id = deliveryId ∧ d.targetAppId = targetAppId ∧ (d.generation : Int) = generation ∧
      ∃ a, Holds connectionId token now a d := by
  cases hcall <;> cases h with
  | kept => exact absurd rfl hne
  | outbox _ _ hop | giveUp _ hop | start _ _ hop | finish _ _ hop | dlq _ _ hop | assign _ hop
  | replay hop => cases hop
  | acknowledge hop hheld | release hop hheld | progress _ _ hop hheld =>
    first
    | cases hop
      exact assignedTo_iff.mp hheld
    | cases hop

/-! ## Grants -/

/-- What a granted assignment fixes until it ends. -/
structure StreamGrant where
  deliveryId : String
  connectionId : String
  token : String
  startedAt : Int
  maxExpiresAt : Int
  deriving DecidableEq

def Assignment.grant (deliveryId : String) (a : Assignment) : StreamGrant :=
  ⟨deliveryId, a.connectionId, a.token, a.startedAt, a.maxExpiresAt⟩

/-- The assignment a step grants. -/
def streamGrantOf (t : Transition DeliveryDb DeliveryOp DeliveryOut) : Option StreamGrant :=
  match t.input, t.output with
  | .assign deliveryId _ connectionId token _ now _ maxProcessing, .assignment .assigned =>
    some ⟨deliveryId, connectionId, token, now, now + maxProcessing⟩
  | _, _ => none

/-- The token an `AssignStreamDelivery` call brings. -/
def DeliveryOp.assignToken : DeliveryOp → Option String
  | .assign _ _ _ token _ _ _ _ => some token
  | _ => none

theorem newAssignment_grant {lease maxProcessing : Int} {assignment : Assignment}
    (h : newAssignment connectionId token now lease maxProcessing = some assignment) (deliveryId : String) :
    assignment.grant deliveryId = ⟨deliveryId, connectionId, token, now, now + maxProcessing⟩ := by
  unfold newAssignment at h
  split at h
  · cases h
    rfl
  · cases h

theorem progress_grant {a a' : Assignment} {until_ : Int} (h : a.progress until_ = some a')
    (deliveryId : String) : a'.grant deliveryId = a.grant deliveryId := by
  unfold Assignment.progress at h
  split at h
  · cases h
    rfl
  · cases h

/-- **What a step does to an assignment**: it keeps what was granted, unless the holder releases it or
the step grants another one. -/
theorem RowStep.assignment {a : Assignment} (h : RowStep op out d d') (hok : StatusOk d) (ha : d.assignment = some a) :
    (∃ a', d'.assignment = some a' ∧ a'.grant d'.id = a.grant d.id) ∨ (d'.assignment = none ∧ ∃ now,
        op = .release d.id d.targetAppId a.connectionId a.token d.generation now ∧ now < a.expiresAt) ∨
      ∃ g, g.deliveryId = d.id ∧ a.expiresAt ≤ g.startedAt ∧ streamGrantOf ⟨db, op, out, db'⟩ = some g := by
  cases h with
  | assign assignment hop hout _ _ _ _ hfree =>
    subst hop hout
    exact .inr (.inr ⟨_, rfl, hfree a ha, rfl⟩)
  | release hop hheld =>
    subst hop
    obtain ⟨-, -, -, a₀, hholds⟩ := assignedTo_iff.mp hheld
    obtain rfl := Option.some.inj (ha.symm.trans hholds.assignment)
    exact .inr (.inl ⟨rfl, _, by rw [hholds.connectionId, hholds.token], hholds.running⟩)
  | progress a₀ a' _ _ ha₀ ha' =>
    obtain rfl := Option.some.inj (ha.symm.trans ha₀)
    exact .inl ⟨a', rfl, progress_grant ha' d.id⟩
  | replay _ hdead => cases (hok.dead hdead).symm.trans ha
  | _ => exact .inl ⟨a, ha, rfl⟩

theorem RowStep.assignment_back (db db' : DeliveryDb) {a' : Assignment} (h : RowStep op out d d')
    (ha' : d'.assignment = some a') :
    (∃ a, d.assignment = some a ∧ a'.grant d'.id = a.grant d.id) ∨
      streamGrantOf ⟨db, op, out, db'⟩ = some (a'.grant d'.id) := by
  cases h with
  | assign assignment hop hout _ hnew =>
    subst hop hout
    cases ha'
    exact .inr (congrArg some (newAssignment_grant hnew d.id).symm)
  | release | replay => cases ha'
  | progress a₀ a₁ _ _ ha₀ ha₁ =>
    cases ha'
    exact .inl ⟨a₀, ha₀, progress_grant ha₁ d.id⟩
  | _ => exact .inl ⟨a', ha', rfl⟩

theorem assign_done {ops : List DeliveryOp} {deliveryId targetAppId : String} {generation lease maxProcessing : Int}
    {disposition : AssignmentDisposition}
    (h : (deliverySystem E).out (reach E ops)
      (.assign deliveryId targetAppId connectionId token generation now lease maxProcessing) =
        .assignment disposition) :
    ∃ db', assignStreamDelivery deliveryId targetAppId connectionId token generation now lease maxProcessing
        (reach E ops) = .ok (disposition, db') ∧
      reach E (ops ++ [.assign deliveryId targetAppId connectionId token generation now lease maxProcessing])
        = db' := by
  obtain ⟨⟨disposition', db'⟩, hassign, heq⟩ := map_ok (transact_of_out h (by simp))
  obtain ⟨hout, hnext⟩ := Prod.mk.inj heq
  obtain rfl := DeliveryOut.assignment.inj hout
  exact ⟨db', hassign, (reach_concat E ops _).trans hnext.symm⟩

theorem streamGrant_ok {ops : List DeliveryOp} {g : StreamGrant} (h : streamGrantOf (stepAt E ops op) = some g) :
    op.assignToken = some g.token ∧ ∃ d ∈ (reach E ops).deliveries, d.id = g.deliveryId ∧
      (∀ a ∈ d.assignment, a.expiresAt ≤ g.startedAt) ∧
      ∃ d' ∈ (reach E (ops ++ [op])).deliveries, ∃ a ∈ d'.assignment, a.grant d'.id = g := by
  unfold streamGrantOf at h
  split at h
  next deliveryId targetAppId connectionId token generation now lease maxProcessing hop hout =>
    cases h
    have hop' : op = .assign deliveryId targetAppId connectionId token generation now lease maxProcessing := hop
    subst hop'
    obtain ⟨db', hassign, hreach⟩ := assign_done hout
    rcases assignStreamDelivery_ok hassign with ⟨hno, -⟩ | ⟨-, d, assignment, rfl, rfl, rfl, hassigns⟩
    · exact absurd rfl hno
    refine ⟨rfl, d, hassigns.mem, rfl, hassigns.free, { d with
        assignment := some assignment
        attempts := d.attempts + 1
        updatedAt := max d.updatedAt now }, ?_, assignment, rfl, newAssignment_grant hassigns.new d.id⟩
    rw [hreach, hassigns.rows]
    exact mem_updateWhere.mpr ⟨d, hassigns.mem, if_pos (decide_eq_true rfl)⟩
  · cases h

end Steps

/-! ## Runs -/

section Runs

variable {E : DeliveryEnv} {ops : List DeliveryOp}

/-- The assignments granted in a run, in order. -/
def streamGrantsIn (E : DeliveryEnv) (ops : List DeliveryOp) : List StreamGrant :=
  ((deliverySystem E).transitions {} ops).filterMap streamGrantOf

theorem streamGrantsIn_concat (E : DeliveryEnv) (ops : List DeliveryOp) (op : DeliveryOp) :
    streamGrantsIn E (ops ++ [op]) = streamGrantsIn E ops ++ (streamGrantOf (stepAt E ops op)).toList := by
  rw [streamGrantsIn, streamGrantsIn, transitions_reach]
  cases h : streamGrantOf (stepAt E ops op) <;> simp [h]

theorem mem_streamGrantsIn {before : List DeliveryOp} {op : DeliveryOp} {g : StreamGrant}
    (h : streamGrantOf (stepAt E before op) = some g) (mid : List DeliveryOp) :
    g ∈ streamGrantsIn E (before ++ op :: mid) := by
  induction mid using reverseRecOn with
  | nil =>
    rw [streamGrantsIn_concat, h]
    exact mem_append_right _ mem_cons_self
  | append_singleton mid op' ih =>
    rw [← cons_append, ← append_assoc, streamGrantsIn_concat]
    exact mem_append_left _ ih

theorem reach_granted (E : DeliveryEnv) (ops : List DeliveryOp) :
    ∀ d ∈ (reach E ops).deliveries, ∀ a ∈ d.assignment, a.grant d.id ∈ streamGrantsIn E ops := by
  induction ops using reverseRecOn with
  | nil => exact fun d hd => (by cases hd)
  | append_singleton ops op ih =>
    intro d' hd' a' ha'
    rw [streamGrantsIn_concat]
    rcases (reach_step E ops op).back hd' with ⟨d, hd, hrow⟩ | ⟨n, rfl, -⟩
    · rcases hrow.assignment_back (reach E ops) (reach E (ops ++ [op])) ha' with
        ⟨a, ha, hgrant⟩ | hnew
      · rw [hgrant]
        exact mem_append_left _ (ih d hd a ha)
      · refine mem_append_right _ ?_
        rw [stepAt, hnew]
        exact mem_cons_self
    · cases ha'

theorem streamGrants_tokens (E : DeliveryEnv) (ops : List DeliveryOp) :
    ((streamGrantsIn E ops).map (·.token)).Sublist (ops.filterMap DeliveryOp.assignToken) := by
  induction ops using reverseRecOn with
  | nil => exact .refl _
  | append_singleton ops op ih =>
    rw [streamGrantsIn_concat, map_append, filterMap_append]
    refine ih.append ?_
    cases h : streamGrantOf (stepAt E ops op) with
    | none => exact nil_sublist _
    | some =>
      have htoken := (streamGrant_ok h).1
      rw [filterMap_cons_some htoken]
      exact .refl _

/-- An accepted acknowledgement leaves the row acknowledged by its caller. -/
theorem acknowledge_done {deliveryId targetAppId connectionId token : String} {generation now : Int}
    (h : (deliverySystem E).out (reach E ops)
      (.acknowledge deliveryId targetAppId connectionId token generation now) = .done) :
    ∃ d ∈ (reach E (ops ++ [.acknowledge deliveryId targetAppId connectionId token generation now])).deliveries,
      d.id = deliveryId ∧ d.targetAppId = targetAppId ∧ d.sink = .stream ∧
        d.ackedBy connectionId token generation = true := by
  obtain ⟨db', hack, heq⟩ := map_ok (transact_of_out h (by simp))
  have hnext : db' = (deliverySystem E).next (reach E ops) _ := congrArg Prod.snd heq
  rw [reach_concat, ← hnext]
  rcases acknowledgeStreamDelivery_ok hack with ⟨⟨d, hd, hheld⟩, rfl⟩ | ⟨hrow, rfl⟩
  · obtain ⟨hid, happ, hgen, a, hholds⟩ := assignedTo_iff.mp hheld
    refine ⟨{ d with status := .acked, updatedAt := max d.updatedAt now },
      mem_updateWhere.mpr ⟨d, hd, if_pos hheld⟩, hid, happ, hholds.sink, ?_⟩
    simp [ackedBy, hgen, hholds.assignment, hholds.connectionId, hholds.token]
  · exact hrow

/-- **Acknowledging again**: the row stays, the same call succeeds and every other one fails. -/
theorem acknowledge_again {db : DeliveryDb} (hnd : db.Keyed) {d : DeliveryRow}
    (hd : d ∈ db.deliveries) (hsink : d.sink = .stream) {connectionId token : String} {generation : Int}
    (hacked : d.ackedBy connectionId token generation = true)
    (targetAppId' connectionId' token' : String) (generation' now' : Int) :
    (deliverySystem E).next db (.acknowledge d.id targetAppId' connectionId' token' generation' now') = db ∧
      (targetAppId' = d.targetAppId ∧ connectionId' = connectionId ∧ token' = token ∧ generation' = generation →
        (deliverySystem E).out db (.acknowledge d.id targetAppId' connectionId' token' generation' now') = .done) ∧
      (¬ (targetAppId' = d.targetAppId ∧ connectionId' = connectionId ∧ token' = token ∧ generation' = generation) →
        ∃ e, (deliverySystem E).out db (.acknowledge d.id targetAppId' connectionId' token' generation' now')
          = .failed e) := by
  have hexec : ∀ result, acknowledgeStreamDelivery d.id targetAppId' connectionId' token' generation' now' db
      = result → (deliverySystem E).exec db (.acknowledge d.id targetAppId' connectionId' token' generation' now')
          = settleTx id db (result.map (.done, ·)) := by
    rintro _ rfl
    rfl
  simp only [ackedBy, Bool.and_eq_true, decide_eq_true_eq, Option.any_eq_true] at hacked
  obtain ⟨⟨hstatus, hgen⟩, a, ha, hconn, htoken⟩ := hacked
  -- the row is acknowledged, so the update finds nothing to write
  have hmiss : ¬ db.deliveries.any (assignedTo d.id targetAppId' connectionId' token' generation' now') = true := by
    intro hany
    obtain ⟨e, he, hheld⟩ := any_eq_true.mp hany
    obtain ⟨hid, -, -, _, hholds⟩ := assignedTo_iff.mp hheld
    rw [eq_of_key_eq hnd he hd hid] at hholds
    exact hholds.acked hstatus
  have hfind : db.deliveries.find? (fun x => x.id = d.id) = some d := find?_key_eq_some hnd hd
  have hcall : acknowledgeStreamDelivery d.id targetAppId' connectionId' token' generation' now' db
      = if d.targetAppId ≠ targetAppId' || d.sink ≠ .stream then .error .notFound
        else if d.ackedBy connectionId' token' generation' then .ok db else .error .conflict := by
    simp only [acknowledgeStreamDelivery, if_neg hmiss, hfind]
  rw [Mealy.next, Mealy.out]
  by_cases happ : targetAppId' = d.targetAppId
  · by_cases hsame : d.ackedBy connectionId' token' generation' = true
    · rw [hexec (.ok db) (hcall.trans (by simp [happ, hsink, hsame]))]
      refine ⟨rfl, fun _ => rfl, fun hno => absurd ?_ hno⟩
      simp only [ackedBy, Bool.and_eq_true, decide_eq_true_eq, Option.any_eq_true] at hsame
      obtain ⟨⟨-, hgen'⟩, a', ha', hconn', htoken'⟩ := hsame
      obtain rfl := Option.some.inj (ha.symm.trans ha')
      exact ⟨happ, hconn'.symm.trans hconn, htoken'.symm.trans htoken, hgen'.symm.trans hgen⟩
    · rw [hexec (.error .conflict) (hcall.trans (by simp [happ, hsink, hsame]))]
      refine ⟨rfl, ?_, fun _ => ⟨_, rfl⟩⟩
      rintro ⟨-, hc, ht, hg⟩
      refine absurd ?_ hsame
      simp [ackedBy, hstatus, ha, hc, ht, hg, hconn, htoken, hgen]
  · rw [hexec (.error .notFound) (hcall.trans (by simp [(.symm happ : d.targetAppId ≠ targetAppId')]))]
    exact ⟨rfl, fun hyes => absurd hyes.1 happ, fun _ => ⟨_, rfl⟩⟩

end Runs

/-- **Stream assignments are exclusive and bounded**, in every run. -/
theorem stream_assignments_exclusive (E : DeliveryEnv) (ops : List DeliveryOp) :
    -- an assignment is granted when none is running, and stored as granted
    (∀ before op after g, ops = before ++ op :: after → streamGrantOf (stepAt E before op) = some g →
      (∀ d ∈ (reach E before).deliveries, d.id = g.deliveryId → ∀ a ∈ d.assignment, a.expiresAt ≤ g.startedAt) ∧
      ∃ d' ∈ (reach E (before ++ [op])).deliveries, ∃ a ∈ d'.assignment, a.grant d'.id = g) ∧
    -- acknowledge, release and progress change a row only for the holder, before the assignment expires
    (∀ before op after deliveryId targetAppId connectionId token generation now, ops = before ++ op :: after →
      HolderCall op deliveryId targetAppId connectionId token generation now →
      ∀ d ∈ (reach E before).deliveries, ∀ d' ∈ (reach E (before ++ [op])).deliveries, d'.id = d.id → d' ≠ d →
        d.id = deliveryId ∧ d.targetAppId = targetAppId ∧ (d.generation : Int) = generation ∧
          ∃ a, Holds connectionId token now a d) ∧
    -- an accepted acknowledgement makes the row `acked` for good; the same call succeeds again without
    -- effect, and every other acknowledgement fails
    (∀ before mid after deliveryId targetAppId connectionId token generation now,
      ops = before ++ .acknowledge deliveryId targetAppId connectionId token generation now :: mid ++ after →
      (deliverySystem E).out (reach E before)
        (.acknowledge deliveryId targetAppId connectionId token generation now) = .done →
      let db := reach E (before ++ .acknowledge deliveryId targetAppId connectionId token generation now :: mid)
      (∃ d ∈ db.deliveries, d.id = deliveryId ∧ d.status = .acked) ∧
      ∀ targetAppId' connectionId' token' generation' now',
        let again := DeliveryOp.acknowledge deliveryId targetAppId' connectionId' token' generation' now'
        (deliverySystem E).next db again = db ∧
        (targetAppId' = targetAppId ∧ connectionId' = connectionId ∧ token' = token ∧
          generation' = generation → (deliverySystem E).out db again = .done) ∧
        (¬ (targetAppId' = targetAppId ∧ connectionId' = connectionId ∧ token' = token ∧
          generation' = generation) → ∃ e, (deliverySystem E).out db again = .failed e)) ∧
    -- the columns are in order
    (∀ d ∈ (reach E ops).deliveries, ∀ a ∈ d.assignment,
      a.startedAt ≤ a.expiresAt ∧ a.expiresAt ≤ a.maxExpiresAt) ∧
    -- an assignment keeps its maximum until the holder releases it or, after it has expired, another one
    -- is granted
    (∀ before op after, ops = before ++ op :: after → ∀ d ∈ (reach E before).deliveries,
      ∀ d' ∈ (reach E (before ++ [op])).deliveries, d'.id = d.id → ∀ a ∈ d.assignment,
        (∃ a' ∈ d'.assignment, a'.grant d'.id = a.grant d.id) ∨
        (d'.assignment = none ∧ ∃ now,
          op = .release d.id d.targetAppId a.connectionId a.token d.generation now ∧ now < a.expiresAt) ∨
        ∃ g, g.deliveryId = d.id ∧ a.expiresAt ≤ g.startedAt ∧ streamGrantOf (stepAt E before op) = some g) ∧
    -- so, with distinct tokens, a stored token stands for one grant, with the maximum of that grant
    ((ops.filterMap DeliveryOp.assignToken).Nodup →
      ∀ before op mid after g, ops = before ++ op :: mid ++ after → streamGrantOf (stepAt E before op) = some g →
        ∀ d ∈ (reach E (before ++ op :: mid)).deliveries, ∀ a ∈ d.assignment, a.token = g.token →
          a.grant d.id = g) := by
  refine ⟨?_, ?_, ?_, fun d _ a _ => ⟨a.started_le, a.le_max⟩, ?_, ?_⟩
  · intro before op after g _ hg
    obtain ⟨-, d, hd, hid, hfree, hstored⟩ := streamGrant_ok hg
    refine ⟨fun e he heid => ?_, hstored⟩
    rw [eq_of_key_eq (reach_inv E before).ids he hd (heid.trans hid.symm)]
    exact hfree
  · intro before op after deliveryId targetAppId connectionId token generation now _ hcall d hd d' hd' hid hne
    exact ((reach_step E before op).forth (reach_inv E before).ids hd hd' hid).holder hcall hne
  · intro before mid after deliveryId targetAppId connectionId token generation now _ hdone
    obtain ⟨d, hd, rfl, rfl, hsink, hacked⟩ := acknowledge_done hdone
    have hstatus : d.status = .acked := by
      simp only [DeliveryRow.ackedBy, Bool.and_eq_true, decide_eq_true_eq] at hacked
      exact hacked.1.1
    have hkept := acked_kept mid hd hstatus
    rw [append_assoc, singleton_append] at hkept
    exact ⟨⟨d, hkept, rfl, hstatus⟩, acknowledge_again (reach_inv E _).ids hkept hsink hacked⟩
  · intro before op after _ d hd d' hd' hid a ha
    exact ((reach_step E before op).forth (reach_inv E before).ids hd hd' hid).assignment
      (reach_statusOk E before d hd) ha
  · intro hdistinct before op mid after g hsplit hg d hd a ha htoken
    have hgranted := reach_granted E (before ++ op :: mid) d hd a ha
    have htokens := streamGrants_tokens E (before ++ op :: mid)
    have hnd : ((streamGrantsIn E (before ++ op :: mid)).map (·.token)).Nodup := by
      refine htokens.nodup (hdistinct.sublist ?_)
      rw [hsplit]
      exact (sublist_append_left _ after).filterMap _
    exact eq_of_key_eq hnd hgranted (mem_streamGrantsIn hg mid) htoken

/-! ## A sample -/

def streamDelivery : NewDelivery := { sampleDelivery with sink := .stream }

/-- A connection takes the delivery, works past its first lease and acknowledges. -/
def streamRun : List DeliveryOp :=
  [.insert streamDelivery, .assign "dlv_1" "app_1" "conn_1" "token_1" 1 second (30 * second) (300 * second),
    .progress "dlv_1" "app_1" "conn_1" "token_1" 1 (20 * second) (30 * second),
    .acknowledge "dlv_1" "app_1" "conn_1" "token_1" 1 (40 * second)]

/-- The answer is lost, and the connection acknowledges again after the lease. -/
theorem stream_assignments_exclusive_repeated :
    (deliverySystem sampleEnv).out (reach sampleEnv streamRun)
      (.acknowledge "dlv_1" "app_1" "conn_1" "token_1" 1 (900 * second)) = .done := by
  have hacked := (stream_assignments_exclusive sampleEnv streamRun).2.2.1 (streamRun.take 3) [] [] "dlv_1" "app_1"
    "conn_1" "token_1" 1 (40 * second) rfl rfl
  exact (hacked.2 "app_1" "conn_1" "token_1" 1 (900 * second)).2.1 ⟨rfl, rfl, rfl, rfl⟩

end RelayHub.Delivery
