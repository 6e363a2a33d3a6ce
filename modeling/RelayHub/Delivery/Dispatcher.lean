import RelayHub.Delivery.Rows

/-! # RelayHub deliveries — dispatchers

`Dispatcher.RunOnce` claims a batch of outbox rows and then, row by row, counts a publish start, calls the
broker and records how the call ended. Any number of dispatchers do this at once, each may stop between any
two steps, and publishers, sinks and operators go on in between. `dispatchers` is that system; it keeps the
calls made to the broker and the publish starts as logs.

`dispatch_cases` says once what each step does to the outbox, the rounds and the logs. -/

namespace RelayHub.Delivery

open List Table OutboxRow

/-! ## Rounds -/

/-- `outbox.Options` beside `MaxAttempts`, which all dispatchers share. -/
structure DispatcherOptions where
  batchSize : Int
  claimTTL : Int
  baseRetry : Int
  maxRetry : Int

/-- The loop of `retryDelay` with the steps that are left. -/
def doubleDelay (maxRetry : Int) : Nat → Int → Int
  | 0, delay => delay
  | steps + 1, delay =>
    if maxRetry ≤ delay then delay
    else if maxRetry / 2 < delay then maxRetry
    else doubleDelay maxRetry steps (delay * 2)

def retryDelay (o : DispatcherOptions) (attempt : Nat) : Int :=
  min (doubleDelay o.maxRetry (attempt - 1) o.baseRetry) o.maxRetry

section Delays

variable {maxRetry delay : Int}

/-- The loop in 64-bit integers, `none` if a product leaves them. -/
def checkedDelay (maxRetry : Int) : Nat → Int → Option Int
  | 0, delay => some delay
  | steps + 1, delay =>
    if maxRetry ≤ delay then some delay
    else if maxRetry / 2 < delay then some maxRetry
    else if -2 ^ 63 ≤ delay * 2 ∧ delay * 2 < 2 ^ 63 then checkedDelay maxRetry steps (delay * 2)
    else none

/-- Only what is at most half of the maximum is doubled. -/
theorem checkedDelay_eq (hpos : 0 < delay) (hword : maxRetry < 2 ^ 63) (steps : Nat) :
    checkedDelay maxRetry steps delay = some (doubleDelay maxRetry steps delay) := by
  induction steps generalizing delay with
  | zero => rfl
  | succ steps ih =>
    rw [checkedDelay, doubleDelay]
    split_ifs
    · rfl
    · rfl
    · exact ih (by omega)
    · omega

theorem min_doubleDelay (hpos : 0 < delay) (steps : Nat) :
    min (doubleDelay maxRetry steps delay) maxRetry = min (delay * 2 ^ steps) maxRetry := by
  induction steps generalizing delay with
  | zero => simp [doubleDelay]
  | succ steps ih =>
    have hone : (1 : Int) ≤ 2 ^ steps := one_le_pow₀ (by decide)
    have hgrows : delay * 2 ≤ delay * 2 ^ (steps + 1) := by
      rw [pow_succ', ← mul_assoc]
      exact le_mul_of_one_le_right (by omega) hone
    rw [doubleDelay]
    split_ifs
    · omega
    · omega
    · rw [ih (by omega), mul_assoc, ← pow_succ']

end Delays

/-- **The delay doubles with every attempt up to the maximum**, and no product overflows. -/
theorem retryDelay_eq_min (o : DispatcherOptions) (attempt : Nat) (hbase : 0 < o.baseRetry)
    (hword : o.maxRetry < 2 ^ 63) :
    retryDelay o attempt = min (o.baseRetry * 2 ^ (attempt - 1)) o.maxRetry ∧
      checkedDelay o.maxRetry (attempt - 1) o.baseRetry = some (doubleDelay o.maxRetry (attempt - 1) o.baseRetry) :=
  ⟨min_doubleDelay hbase _, checkedDelay_eq hbase hword _⟩

theorem retryDelay_eq_min_third : retryDelay ⟨100, 30, 1, 5⟩ 3 = min (1 * 2 ^ 2) 5 :=
  (retryDelay_eq_min ⟨100, 30, 1, 5⟩ 3 (by decide) (by decide)).1

/-- `broker.Publication`. -/
structure BrokerPublication where
  subject : String
  payload : OutboxEnvelope
  messageId : String
  deriving DecidableEq

/-- A call of `Publish`, and whether the broker acknowledged it. -/
structure Call where
  publication : BrokerPublication
  acked : Bool
  deriving DecidableEq

/-- The message of an outbox row. -/
def OutboxRow.publication (o : OutboxRow) : BrokerPublication where
  subject := o.subject
  payload := o.payload
  messageId := o.messageId

/-- The delivery and the generation that a message is of. -/
def BrokerPublication.key (p : BrokerPublication) : String × Nat := (p.payload.deliveryId, p.payload.generation)

/-- The claim token of a row. -/
def OutboxRow.token (o : OutboxRow) : Option String := o.claim.map (·.token)

/-- Where a round is with its first message. -/
inductive Phase where
  | claimed
  | started (attempt : Nat)
  | acknowledged
  | refused (attempt : Nat)
  deriving DecidableEq

/-- A call of `RunOnce` under way. -/
structure Round where
  dispatcher : Nat
  now : Int
  token : String
  messages : List OutboxRow
  phase : Phase

/-- On to the next message. -/
def Round.next (r : Round) : Round := { r with messages := r.messages.tail, phase := .claimed }

structure DispatchState where
  db : DeliveryDb := {}
  rounds : List Round := []
  calls : List Call := []
  /-- The publish starts, each by the delivery and the generation of its message. -/
  starts : List (String × Nat) := []

def DispatchState.endRound (s : DispatchState) (dispatcher : Nat) : DispatchState :=
  { s with rounds := s.rounds.filter fun r => decide (r.dispatcher ≠ dispatcher) }

def DispatchState.setRound (s : DispatchState) (r : Round) : DispatchState :=
  { s with rounds := r :: (s.endRound r.dispatcher).rounds }

/-- The operations of a dispatcher. -/
def DeliveryOp.isDispatch : DeliveryOp → Bool
  | .claim .. | .beginPublish .. | .markDispatched .. | .retry .. | .fail .. => true
  | _ => false

inductive DispatchOp where
  /-- A publication, a sink or an operator. -/
  | store (op : DeliveryOp) (h : op.isDispatch = false)
  | claim (dispatcher : Nat) (now : Int) (token : String) (skipped : List String)
  | begin (dispatcher : Nat)
  | publish (dispatcher : Nat) (acked : Bool)
  /-- Record how the call ended; `clock` is `clock_timestamp()`. -/
  | finish (dispatcher : Nat) (clock : Int)
  | crash (dispatcher : Nat)

/-- A store error ends the round. -/
def DispatchState.settle (s : DispatchState) (r : Round) : Except StoreError DeliveryDb → DispatchState
  | .error _ => s.endRound r.dispatcher
  | .ok db => ({ s with db } : DispatchState).setRound r.next

/-- The steps of `RunOnce` and of everything around it. -/
def dispatchExec (E : DeliveryEnv) (options : Nat → DispatcherOptions) (maxAttempts : Nat) (s : DispatchState) :
    DispatchOp → DispatchState
  | .store op _ => { s with db := (deliverySystem E).next s.db op }
  | .claim i now token skipped =>
    match claimOutbox now (now - (options i).claimTTL) token (options i).batchSize skipped s.db with
    | .error _ => s.endRound i
    | .ok (rows, db) =>
      ({ s with db } : DispatchState).setRound
        { dispatcher := i, now, token, messages := rows.map Prod.fst, phase := .claimed }
  | .begin i =>
    match s.rounds.find? (·.dispatcher = i) with
    | none => s
    | some r =>
      match r.phase, r.messages with
      | .claimed, m :: _ =>
        match beginOutboxPublish m.id (m.token.getD "") r.now maxAttempts s.db with
        | .error _ => s.endRound i
        | .ok (start, db) =>
          if start.exhausted then ({ s with db } : DispatchState).setRound r.next
          else
            ({ s with db, starts := s.starts ++ [m.publication.key] } : DispatchState).setRound
              { r with phase := .started start.attempt }
      | _, _ => s
  | .publish i acked =>
    match s.rounds.find? (·.dispatcher = i) with
    | none => s
    | some r =>
      match r.phase, r.messages with
      | .started attempt, m :: _ =>
        ({ s with calls := s.calls ++ [⟨m.publication, acked⟩] } : DispatchState).setRound
          { r with phase := if acked then .acknowledged else .refused attempt }
      | _, _ => s
  | .finish i clock =>
    match s.rounds.find? (·.dispatcher = i) with
    | none => s
    | some r =>
      match r.phase, r.messages with
      | .acknowledged, m :: _ => s.settle r (markOutboxDispatched m.id (m.token.getD "") r.now s.db)
      | .refused attempt, m :: _ =>
        if maxAttempts ≤ attempt then
          s.settle r (failOutbox m.id (m.token.getD "") r.now "broker_unavailable" s.db)
        else
          s.settle r (retryOutbox m.id (m.token.getD "") (r.now + retryDelay (options i) attempt)
            "broker_unavailable" clock s.db)
      | _, _ => s
  | .crash i => s.endRound i

/-- The dispatchers and their surroundings as a machine; what a run did is in its states. -/
def dispatchers (E : DeliveryEnv) (options : Nat → DispatcherOptions) (maxAttempts : Nat) :
    Mealy DispatchState DispatchOp Unit where
  exec s op := ((), dispatchExec E options maxAttempts s op)

/-! ## Who writes the outbox -/

section Outbox

variable {E : DeliveryEnv} {db db' : DeliveryDb} {op : DeliveryOp} {out : DeliveryOut}

/-- The operations of callback workers and of stream sessions. -/
def DeliveryOp.isSink : DeliveryOp → Bool
  | .beginCallback .. | .finishCallback .. | .markDLQPublished .. | .assign .. | .acknowledge .. | .release ..
  | .progress .. => true
  | _ => false

theorem transact_sink (hop : op.isSink = true) (h : transact E db op = .ok (out, db')) :
    db'.outbox = db.outbox ∧ db'.replayRequests = db.replayRequests := by
  cases op <;> try cases hop
  all_goals
    obtain ⟨a, ha, heq⟩ := map_ok h
    cases heq
  case beginCallback =>
    unfold beginCallbackAttempt beginLocked at ha
    constructor <;> grind
  case finishCallback =>
    unfold finishCallbackAttempt at ha
    grind
  case markDLQPublished =>
    unfold markCallbackDLQPublished at ha
    grind
  case assign =>
    unfold assignStreamDelivery at ha
    grind
  case acknowledge =>
    unfold acknowledgeStreamDelivery at ha
    grind
  case release =>
    unfold releaseStreamDelivery at ha
    grind
  case progress =>
    unfold progressStreamDelivery at ha
    grind

/-- What publications, sinks and operators do to the outbox. -/
inductive OutboxChange (outbox : List OutboxRow) : List OutboxRow → Prop where
  | insert (sha256 : String → String) (n : NewDelivery)
      (hfresh : ∀ o ∈ outbox, o.id ≠ (n.outboxRow sha256).id ∧ o.deliveryId ≠ n.deliveryId) :
      OutboxChange outbox (outbox ++ [n.outboxRow sha256])
  | replay {outbox' : List OutboxRow} (h : List.Forall₂ Reopened outbox outbox') : OutboxChange outbox outbox'

theorem transact_outbox (hop : op.isDispatch = false) (h : transact E db op = .ok (out, db')) :
    OutboxChange db.outbox db'.outbox := by
  cases hsink : op.isSink with
  | true =>
    rw [(transact_sink hsink h).1]
    exact .replay (forall₂_reopened_refl _)
  | false =>
    cases op <;> try contradiction
    all_goals
      obtain ⟨a, ha, heq⟩ := map_ok h
      cases heq
    case false.insert n =>
      obtain ⟨-, hfresh, rfl⟩ := insertDeliveryAndOutbox_rows ha
      exact .insert E.sha256 n hfresh
    case false.replay => exact .replay (replayAdminDeadLetters_rows ha).2.2

end Outbox

/-! ## What a step does -/

/-- The stored row of a message whose claim still stands. -/
structure Held (db : DeliveryDb) (m o : OutboxRow) : Prop where
  stored : o ∈ db.outbox
  id : o.id = m.id
  token : o.token = some (m.token.getD "")

theorem claimedRow_held {m o : OutboxRow} {db : DeliveryDb} (h : claimedRow m.id (m.token.getD "") db = some o) :
    Held db m o := by
  unfold claimedRow at h
  split at h
  · cases h
  have hheld := List.find?_some h
  simp only [heldBy, Bool.and_eq_true, decide_eq_true_eq, Option.any_eq_true] at hheld
  obtain ⟨⟨hid, c, hc, htoken⟩, -⟩ := hheld
  refine ⟨mem_of_find?_eq_some h, hid, ?_⟩
  rw [token, hc, ← htoken]
  rfl

/-- An update that ends the claim of a row and leaves its message and its attempts alone. -/
structure Releases (f : OutboxRow → OutboxRow) : Prop where
  id : ∀ o, (f o).id = o.id
  deliveryId : ∀ o, (f o).deliveryId = o.deliveryId
  generation : ∀ o, (f o).generation = o.generation
  publication : ∀ o, (f o).publication = o.publication
  attempts : ∀ o, (f o).attempts = o.attempts
  claim : ∀ o, (f o).claim = none

theorem releases_fail (now : Int) (reason : String) : Releases (fail now reason) :=
  ⟨fun _ => rfl, fun _ => rfl, fun _ => rfl, fun _ => rfl, fun _ => rfl, fun _ => rfl⟩

theorem failRow_outbox {o : OutboxRow} {now : Int} {reason : String} {db db' : DeliveryDb}
    (h : failRow o now reason db = .ok db') :
    db'.outbox = updateWhere (fun x => x.id = o.id) (fail now reason) db.outbox := by
  unfold failRow at h
  split at h
  · cases h
  · cases h
    rfl

/-- The row once it is dispatched. -/
def OutboxRow.dispatched (now : Int) (o : OutboxRow) : OutboxRow :=
  { o with dispatchedAt := some now, claim := none, lastError := none, updatedAt := now }

/-- The row with another try scheduled. -/
def OutboxRow.retried (availableAt : Int) (reason : String) (clock : Int) (o : OutboxRow) : OutboxRow :=
  { o with availableAt, claim := none, lastError := some (safeOutboxReason reason), updatedAt := clock }

/-- The row with a publish start counted. -/
def OutboxRow.begun (attempts : Nat) (now : Int) (o : OutboxRow) : OutboxRow :=
  { o with attempts, updatedAt := max o.updatedAt now }

/-- The claimed row. -/
def OutboxRow.claimed (now : Int) (token : String) (o : OutboxRow) : OutboxRow :=
  { o with claim := some ⟨now, token⟩, updatedAt := now }

/-- **What a step does** to the outbox, the rounds and the logs. -/
inductive DispatchCase (maxAttempts : Nat) (s : DispatchState) : DispatchOp → DispatchState → Prop where
  | quiet {op : DispatchOp} {s' : DispatchState} (outbox : s'.db.outbox = s.db.outbox)
      (rounds : List.Sublist s'.rounds s.rounds) (calls : s'.calls = s.calls) (starts : s'.starts = s.starts) :
      DispatchCase maxAttempts s op s'
  | store {op : DeliveryOp} {h : op.isDispatch = false} {s' : DispatchState}
      (outbox : OutboxChange s.db.outbox s'.db.outbox) (rounds : s'.rounds = s.rounds)
      (calls : s'.calls = s.calls) (starts : s'.starts = s.starts) :
      DispatchCase maxAttempts s (.store op h) s'
  | claim {i : Nat} {now : Int} {token : String} {skipped : List String} {s' : DispatchState}
      (chosen : List OutboxRow) (hchosen : ∀ o ∈ chosen, o ∈ s.db.outbox)
      (outbox : s'.db.outbox = updateWhere (fun o => (chosen.map (·.id)).contains o.id)
        (OutboxRow.claimed now token) s.db.outbox)
      (rounds : s'.rounds =
        ⟨i, now, token, chosen.map (OutboxRow.claimed now token), .claimed⟩ :: (s.endRound i).rounds)
      (calls : s'.calls = s.calls) (starts : s'.starts = s.starts) :
      DispatchCase maxAttempts s (.claim i now token skipped) s'
  | start {op : DispatchOp} {s' : DispatchState} (r : Round) (m : OutboxRow) (rest : List OutboxRow)
      (o : OutboxRow) (hr : r ∈ s.rounds) (hphase : r.phase = .claimed) (hmessages : r.messages = m :: rest)
      (hheld : Held s.db m o) (hlt : o.attempts < maxAttempts)
      (outbox : s'.db.outbox = updateWhere (fun x => x.id = o.id) (OutboxRow.begun (o.attempts + 1) r.now)
        s.db.outbox)
      (rounds : s'.rounds = { r with phase := .started (o.attempts + 1) } :: (s.endRound r.dispatcher).rounds)
      (calls : s'.calls = s.calls) (starts : s'.starts = s.starts ++ [m.publication.key]) :
      DispatchCase maxAttempts s op s'
  | publish {op : DispatchOp} {s' : DispatchState} (r : Round) (m : OutboxRow) (rest : List OutboxRow)
      (attempt : Nat) (acked : Bool) (hr : r ∈ s.rounds) (hphase : r.phase = .started attempt)
      (hmessages : r.messages = m :: rest) (outbox : s'.db.outbox = s.db.outbox)
      (rounds : s'.rounds = { r with phase := if acked then .acknowledged else .refused attempt }
        :: (s.endRound r.dispatcher).rounds)
      (calls : s'.calls = s.calls ++ [⟨m.publication, acked⟩]) (starts : s'.starts = s.starts) :
      DispatchCase maxAttempts s op s'
  | release {op : DispatchOp} {s' : DispatchState} (r : Round) (m : OutboxRow) (rest : List OutboxRow)
      (o : OutboxRow) (f : OutboxRow → OutboxRow) (hr : r ∈ s.rounds) (hmessages : r.messages = m :: rest)
      (hheld : Held s.db m o) (hf : Releases f)
      (hdispatched : (∀ x, (f x).dispatchedAt = x.dispatchedAt) ∨ r.phase = .acknowledged)
      (hfailed : (∀ x, (f x).failedAt = x.failedAt) ∨ (r.phase = .claimed ∧ maxAttempts ≤ o.attempts) ∨
        ∃ attempt, r.phase = .refused attempt ∧ maxAttempts ≤ attempt)
      (outbox : s'.db.outbox = updateWhere (fun x => x.id = o.id) f s.db.outbox)
      (rounds : s'.rounds = r.next :: (s.endRound r.dispatcher).rounds)
      (calls : s'.calls = s.calls) (starts : s'.starts = s.starts) : DispatchCase maxAttempts s op s'
  /-- The row is dispatched already. -/
  | skip {op : DispatchOp} {s' : DispatchState} (r : Round) (hr : r ∈ s.rounds)
      (outbox : s'.db.outbox = s.db.outbox) (rounds : s'.rounds = r.next :: (s.endRound r.dispatcher).rounds)
      (calls : s'.calls = s.calls) (starts : s'.starts = s.starts) : DispatchCase maxAttempts s op s'

section Cases

variable {E : DeliveryEnv} {options : Nat → DispatcherOptions} {maxAttempts : Nat} {s : DispatchState}
  {op : DispatchOp}

theorem endRound_case (i : Nat) : DispatchCase maxAttempts s op (s.endRound i) :=
  .quiet rfl filter_sublist rfl rfl

theorem idle_case : DispatchCase maxAttempts s op s := .quiet rfl (.refl _) rfl rfl

variable {rest : List OutboxRow} {r : Round} {m : OutboxRow}

section

variable (hr : r ∈ s.rounds) (hmessages : r.messages = m :: rest)

include hr hmessages

theorem begin_case {start : OutboxPublishStart} {db' : DeliveryDb} (hphase : r.phase = .claimed)
    (h : beginOutboxPublish m.id (m.token.getD "") r.now maxAttempts s.db = .ok (start, db')) :
    DispatchCase maxAttempts s op (if start.exhausted then ({ s with db := db' } : DispatchState).setRound r.next
        else ({ s with db := db', starts := s.starts ++ [m.publication.key] } : DispatchState).setRound
          { r with phase := .started start.attempt }) := by
  unfold beginOutboxPublish at h
  split at h
  · cases h
  split at h
  · cases h
  next o ho =>
  have hheld := claimedRow_held ho
  split at h
  next hexhausted =>
    split at h
    · cases h
    next hfail =>
    cases h
    exact .release r m rest o _ hr hmessages hheld (releases_fail r.now "max_attempts") (.inl fun _ => rfl)
      (.inr (.inl ⟨hphase, by omega⟩)) (failRow_outbox hfail) rfl rfl rfl
  next hroom =>
    cases h
    refine .start r m rest o hr hphase hmessages hheld (by omega) ?_ rfl rfl rfl
    rw [hheld.id]
    rfl

theorem markDispatched_case (hphase : r.phase = .acknowledged) :
    DispatchCase maxAttempts s op (s.settle r (markOutboxDispatched m.id (m.token.getD "") r.now s.db)) := by
  unfold markOutboxDispatched
  split
  · exact endRound_case _
  split
  next o ho =>
    exact .release r m rest o (.dispatched r.now) hr hmessages (claimedRow_held ho)
      (by constructor <;> exact fun _ => rfl) (.inr hphase) (.inl fun _ => rfl) rfl rfl rfl rfl
  · split
    · exact endRound_case _
    · split
      · exact .skip r hr rfl rfl rfl rfl
      · exact endRound_case _

theorem failOutbox_dispatch {attempt : Nat} (hphase : r.phase = .refused attempt) (hmax : maxAttempts ≤ attempt)
    (reason : String) :
    DispatchCase maxAttempts s op (s.settle r (failOutbox m.id (m.token.getD "") r.now reason s.db)) := by
  unfold failOutbox
  split
  · exact endRound_case _
  next o ho =>
  cases hfail : failRow o r.now (safeOutboxReason reason) s.db with
  | error => exact endRound_case _
  | ok =>
    exact .release r m rest o _ hr hmessages (claimedRow_held ho) (releases_fail r.now _)
      (.inl fun _ => rfl) (.inr (.inr ⟨attempt, hphase, hmax⟩)) (failRow_outbox hfail) rfl rfl rfl

theorem retryOutbox_dispatch (availableAt clock : Int) (reason : String) :
    DispatchCase maxAttempts s op (s.settle r (retryOutbox m.id (m.token.getD "") availableAt reason clock s.db)) := by
  unfold retryOutbox
  split
  · exact endRound_case _
  next o ho =>
    exact .release r m rest o (.retried availableAt reason clock) hr hmessages (claimedRow_held ho)
      (by constructor <;> exact fun _ => rfl) (.inl fun _ => rfl) (.inl fun _ => rfl) rfl rfl rfl rfl

end

theorem dispatch_cases (E : DeliveryEnv) (options : Nat → DispatcherOptions) (maxAttempts : Nat)
    (s : DispatchState) (op : DispatchOp) :
    DispatchCase maxAttempts s op ((dispatchers E options maxAttempts).next s op) := by
  show DispatchCase maxAttempts s op (dispatchExec E options maxAttempts s op)
  cases op with
  | store op hop =>
    refine .store ?_ rfl rfl rfl
    show OutboxChange s.db.outbox ((deliverySystem E).next s.db op).outbox
    rw [next_eq]
    cases h : transact E s.db op with
    | error => exact .replay (forall₂_reopened_refl _)
    | ok => exact transact_outbox hop h
  | claim i now token skipped =>
    simp only [dispatchExec]
    cases hclaim : claimOutbox now (now - (options i).claimTTL) token (options i).batchSize skipped s.db with
    | error => exact endRound_case i
    | ok =>
      unfold claimOutbox at hclaim
      split at hclaim
      · cases hclaim
      cases hclaim
      refine .claim _ (fun o ho => ?_) rfl ?_ rfl rfl
      · exact (mem_filter.mp ((mem_insertionSort _).mp (mem_of_mem_take ho))).1
      · simp only [map_map]
        rfl
  | begin i =>
    simp only [dispatchExec]
    split
    · exact idle_case
    next hr =>
    split
    next hphase hmessages =>
      split
      · exact endRound_case i
      next hbegin => exact begin_case (mem_of_find?_eq_some hr) hmessages hphase hbegin
    · exact idle_case
  | publish i acked =>
    simp only [dispatchExec]
    split
    · exact idle_case
    next r hr =>
    split
    next attempt m rest hphase hmessages =>
      exact .publish r m rest attempt acked (mem_of_find?_eq_some hr) hphase hmessages rfl rfl rfl rfl
    · exact idle_case
  | finish =>
    simp only [dispatchExec]
    split
    · exact idle_case
    next hr =>
    have hmem := mem_of_find?_eq_some hr
    split
    next hphase hmessages => exact markDispatched_case hmem hmessages hphase
    next hphase hmessages =>
      split
      next hmax => exact failOutbox_dispatch hmem hmessages hphase hmax _
      · exact retryOutbox_dispatch hmem hmessages _ _ _
    · exact idle_case
  | crash i => exact endRound_case i

end Cases

end RelayHub.Delivery
