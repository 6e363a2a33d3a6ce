import RelayHub.Queue.Frame
import RelayHub.Queue.Limits

/-! # RelayHub queue — draining a subscription

`BeginQueueDrain` sets `draining_at`, and from then on a pull returns before it leases anything.
`GetQueueDrain` runs two statements without a lock: it reads the drain columns with the number in flight,
and, if the drain is done, writes `drained_at`. Other transactions commit in between. `readDrain` and
`finishDrain` are the two halves, `getQueueDrain_eq` says that `getQueueDrain` runs them on the same tables,
and `drainSystem` runs them as steps of their own, among all the operations of the queue.

The write stays right because what it relies on is stable: a subscription that drains keeps draining, and
its number in flight only falls (`DrainStep`, `draining_inFlight_le`). -/

namespace RelayHub.Queue

open List Table Option

/-! ## The statements -/

/-- What the first statement of `GetQueueDrain` reads, with the arguments of the call. -/
structure DrainRead where
  appId : String
  subscriptionId : String
  now : Int
  startedAt : Option Int
  deadlineAt : Option Int
  completedAt : Option Int
  inFlight : Nat

def readDrain (appId subscriptionId : String) (now : Int) (db : QueueDb) :
    Except StoreError DrainRead :=
  match db.findSubscription appId subscriptionId with
  | none => .error .notFound
  | some s =>
    .ok
      { appId, subscriptionId, now
        startedAt := s.drainingAt
        deadlineAt := s.drainDeadlineAt
        completedAt := s.drainedAt
        inFlight := inFlightCount db s.id }

variable {appId subscriptionId : String} {db : QueueDb} {now : Int} {r : DrainRead}

theorem readDrain_ok (h : readDrain appId subscriptionId now db = .ok r) :
    ∃ s, db.findSubscription appId subscriptionId = some s ∧ r =
      { appId, subscriptionId, now
        startedAt := s.drainingAt
        deadlineAt := s.drainDeadlineAt
        completedAt := s.drainedAt
        inFlight := inFlightCount db s.id } := by
  unfold readDrain at h
  split at h
  · cases h
  next s hs =>
    cases h
    exact ⟨s, hs, rfl⟩

/-- `UPDATE … SET drained_at=$3 … WHERE app_id=$1 AND id=$2 AND draining_at IS NOT NULL AND drained_at IS
NULL`. -/
def writeDrained (appId subscriptionId : String) (now : Int) (db : QueueDb) :
    Except StoreError QueueDb :=
  match db.findSubscription appId subscriptionId with
  | none => .ok db
  | some s =>
    if s.drainingAt.isNone || s.drainedAt.isSome then .ok db
    else
      let row := { s.toQueueSubscription with drainedAt := some now, updatedAt := now }
      if h : row.Check then .ok (storeSubscription ⟨row, h⟩ db) else .error .database

/-- The rest of `GetQueueDrain`. The time it reports is its own, also when another call has written
`drained_at` since the read. -/
def finishDrain (r : DrainRead) (db : QueueDb) : Except StoreError (QueueDrain × QueueDb) :=
  let drain (status : DrainStatus) (completedAt : Option Int) : QueueDrain :=
    { subscriptionId := r.subscriptionId, status, inFlight := r.inFlight, startedAt := r.startedAt
      deadlineAt := r.deadlineAt, completedAt }
  if r.startedAt.isNone then .ok (drain .active r.completedAt, db)
  else if r.inFlight = 0 then
    match r.completedAt with
    | some t => .ok (drain .drained (some t), db)
    | none =>
      match writeDrained r.appId r.subscriptionId r.now db with
      | .error e => .error e
      | .ok db => .ok (drain .drained (some r.now), db)
  else
    match r.deadlineAt with
    | some deadline =>
      if deadline ≤ r.now then .ok (drain .timedOut r.completedAt, db)
      else .ok (drain .draining r.completedAt, db)
    | none => .ok (drain .draining r.completedAt, db)

variable {db' : QueueDb} {startedAt deadlineAt : Int}

/-- The write stores one row, of a subscription that drains and is not drained. -/
theorem writeDrained_ok (h : writeDrained appId subscriptionId now db = .ok db') :
    db' = db ∨ ∃ (s row : SubscriptionRow), db.findSubscription appId subscriptionId = some s ∧
      s.drainingAt.isSome = true ∧ s.drainedAt = none ∧ row.id = s.id ∧ row.appId = s.appId ∧
      row.drainingAt = s.drainingAt ∧ db' = storeSubscription row db := by
  unfold writeDrained at h
  split at h
  · cases h
    exact .inl rfl
  next s hs =>
  split at h
  · cases h
    exact .inl rfl
  next hopen =>
  rw [Bool.or_eq_true, not_or, not_isSome_iff_eq_none] at hopen
  dsimp only at h
  split at h
  next hcheck =>
    cases h
    refine .inr ⟨s, ⟨_, hcheck⟩, hs, ?_, hopen.2, rfl, rfl, rfl, rfl⟩
    exact isSome_iff_ne_none.mpr (mt isNone_iff_eq_none.mpr hopen.1)
  · cases h

/-- A call changes the tables only by its write, after it has read a drain with nothing in flight. -/
theorem finishDrain_ok {drain : QueueDrain} (h : finishDrain r db = .ok (drain, db')) :
    db' = db ∨ r.startedAt.isSome = true ∧ r.inFlight = 0 ∧
      writeDrained r.appId r.subscriptionId r.now db = .ok db' := by
  unfold finishDrain at h
  split at h
  · cases h
    exact .inl rfl
  next hstart =>
  split at h
  next hzero =>
    split at h
    · cases h
      exact .inl rfl
    · split at h
      · cases h
      next hwrite =>
        cases h
        exact .inr ⟨isSome_iff_ne_none.mpr (mt isNone_iff_eq_none.mpr hstart), hzero, hwrite⟩
  · split at h
    · split at h <;> cases h <;> exact .inl rfl
    · cases h
      exact .inl rfl

/-- `getQueueDrain` is the case where nothing commits between the two statements. -/
theorem getQueueDrain_eq (appId subscriptionId : String) (now : Int) (db : QueueDb) :
    getQueueDrain appId subscriptionId now db
      = (readDrain appId subscriptionId now db).bind fun r => finishDrain r db := by
  unfold getQueueDrain readDrain
  cases hsub : db.findSubscription appId subscriptionId with
  | none => rfl
  | some s =>
    simp only [Except.bind, finishDrain]
    by_cases hstart : s.drainingAt.isNone = true
    · rw [if_pos hstart, if_pos hstart]
    rw [if_neg hstart]
    split
    · rcases eq_none_or_eq_some s.drainedAt with hdone | ⟨t, hdone⟩
      · -- the update looks the subscription up again and finds it draining and not drained
        have hwrite : ¬ (s.drainingAt.isNone || (none : Option Int).isSome) = true := by
          rw [isSome_none, Bool.or_false]
          exact hstart
        simp only [hdone, writeDrained, hsub]
        split <;> rfl
      · simp only [hdone]
    · rfl

/-- The update of `BeginQueueDrain`; `GetQueueDrain` follows it as a call of its own. -/
def beginDrain (appId subscriptionId : String) (startedAt deadlineAt : Int) (db : QueueDb) :
    Except StoreError QueueDb :=
  match db.findSubscription appId subscriptionId with
  | none => .error .notFound
  | some s =>
    let row := beginDrainRow startedAt deadlineAt s.toQueueSubscription
    if h : row.Check then .ok (storeSubscription ⟨row, h⟩ db) else .error .database

theorem beginDrain_ok (h : beginDrain appId subscriptionId startedAt deadlineAt db = .ok db') :
    ∃ s row : SubscriptionRow, db.findSubscription appId subscriptionId = some s ∧
      row.toQueueSubscription = beginDrainRow startedAt deadlineAt s.toQueueSubscription ∧
      db' = storeSubscription row db := by
  unfold beginDrain at h
  split at h
  · cases h
  next s hs =>
  dsimp only at h
  split at h
  next hcheck =>
    cases h
    exact ⟨s, ⟨_, hcheck⟩, hs, rfl, rfl⟩
  · cases h

theorem beginQueueDrain_eq (appId subscriptionId : String) (startedAt deadlineAt : Int) (db : QueueDb) :
    beginQueueDrain appId subscriptionId startedAt deadlineAt db
      = match beginDrain appId subscriptionId startedAt deadlineAt db with
        | .error e => (.error e, db)
        | .ok db => match getQueueDrain appId subscriptionId startedAt db with
          | .error e => (.error e, db)
          | .ok (drain, db) => (.ok drain, db) := by
  unfold beginQueueDrain beginDrain
  cases db.findSubscription appId subscriptionId with
  | none => rfl
  | some =>
    dsimp only
    split <;> rfl

/-! ## The machine -/

/-- A step: an operation of the queue, the update of a `BeginQueueDrain`, or one half of a
`GetQueueDrain`. The halves of a call carry its number. -/
inductive DrainOp where
  | queue (op : QueueOp)
  | begin (appId subscriptionId : String) (startedAt deadlineAt : Int)
  | read (call : Nat) (appId subscriptionId : String) (now : Int)
  | finish (call : Nat)

inductive DrainOut where
  | queue (out : QueueOut)
  | failed (error : StoreError)
  | done
  | drain (drain : QueueDrain)

/-- The tables, and what the calls in progress have read. -/
structure DrainState where
  db : QueueDb := {}
  reads : List (Nat × DrainRead) := []

def DrainState.drop (call : Nat) (s : DrainState) : DrainState :=
  { s with reads := s.reads.filter fun r => r.1 ≠ call }

def drainExec (D : Digests) (s : DrainState) : DrainOp → DrainOut × DrainState
  | .queue op => (.queue ((queue D).out s.db op), { s with db := (queue D).next s.db op })
  | .begin appId subscriptionId startedAt deadlineAt =>
    match beginDrain appId subscriptionId startedAt deadlineAt s.db with
    | .error e => (.failed e, s)
    | .ok db => (.done, { s with db })
  | .read call appId subscriptionId now =>
    match readDrain appId subscriptionId now s.db with
    | .error e => (.failed e, s)
    | .ok r => (.done, { s with reads := (call, r) :: s.reads })
  | .finish call =>
    match s.reads.find? fun r => r.1 = call with
    | none => (.done, s)
    | some (_, r) =>
      match finishDrain r s.db with
      | .error e => (.failed e, s.drop call)
      | .ok (drain, db) => (.drain drain, { s.drop call with db })

def drainSystem (D : Digests) : Mealy DrainState DrainOp DrainOut where
  exec := drainExec D

/-! ## What a step does to a drain -/

/-- `draining_at` is set. -/
def Draining (db : QueueDb) (id : String) : Prop :=
  ∃ s ∈ db.subscriptions, s.id = id ∧ s.drainingAt.isSome = true

instance (db : QueueDb) (id : String) : Decidable (Draining db id) :=
  inferInstanceAs (Decidable (∃ s ∈ db.subscriptions, s.id = id ∧ s.drainingAt.isSome = true))

/-- A subscription before and after a step on `db`: a drain goes on, and `drained_at` is written only
while nothing is in flight. -/
structure DrainStep (db : QueueDb) (s s' : QueueSubscription) : Prop where
  id : s'.id = s.id
  appId : s'.appId = s.appId
  draining : s.drainingAt.isSome = true → s'.drainingAt = s.drainingAt
  drained : s'.drainedAt = s.drainedAt ∨
    s.drainedAt = none ∧ s'.drainingAt.isSome = true ∧ inFlightCount db s.id = 0

theorem DrainStep.refl (db : QueueDb) (s : QueueSubscription) : DrainStep db s s :=
  ⟨rfl, rfl, fun _ => rfl, .inl rfl⟩

theorem DrainStep.trans {db₁ : QueueDb} {s s₁ s₂ : QueueSubscription} (hdb : db₁.deliveries = db.deliveries)
    (h : DrainStep db s s₁) (h' : DrainStep db₁ s₁ s₂) : DrainStep db s s₂ := by
  have hcount : inFlightCount db₁ s₁.id = inFlightCount db s.id := by
    rw [inFlightCount, inFlightCount, hdb, h.id]
  have hdraining : s.drainingAt.isSome = true → s₁.drainingAt.isSome = true :=
    fun hs => by rw [h.draining hs]; exact hs
  refine ⟨h'.id.trans h.id, h'.appId.trans h.appId, fun hs => (h'.draining (hdraining hs)).trans (h.draining hs), ?_⟩
  rcases h'.drained with h₂ | ⟨hnone, hdrain, hzero⟩
  · rcases h.drained with h₁ | ⟨hnone, hdrain, hzero⟩
    · exact .inl (h₂.trans h₁)
    · exact .inr ⟨hnone, by rw [h'.draining hdrain]; exact hdrain, hzero⟩
  · refine .inr ⟨?_, hdrain, hcount ▸ hzero⟩
    rcases h.drained with h₁ | ⟨hnone', -⟩
    · rw [← h₁]
      exact hnone
    · exact hnone'

/-- Every subscription makes such a step. -/
def DrainsKept (db db' : QueueDb) : Prop :=
  ∀ s ∈ db.subscriptions, ∃ s' ∈ db'.subscriptions,
    DrainStep db s.toQueueSubscription s'.toQueueSubscription

theorem DrainsKept.of_eq (h : db'.subscriptions = db.subscriptions) : DrainsKept db db' :=
  fun s hs => ⟨s, h ▸ hs, .refl db _⟩

theorem DrainsKept.trans {db₁ db₂ : QueueDb} (hdb : db₁.deliveries = db.deliveries) (h : DrainsKept db db₁)
    (h' : DrainsKept db₁ db₂) : DrainsKept db db₂ := by
  intro s hs
  obtain ⟨s₁, hs₁, hstep⟩ := h s hs
  obtain ⟨s₂, hs₂, hstep'⟩ := h' s₁ hs₁
  exact ⟨s₂, hs₂, hstep.trans hdb hstep'⟩

section Kept

variable {db db' : QueueDb} (hnd : (db.subscriptions.map (·.id)).Nodup)

include hnd

theorem storeSubscription_drainsKept {s item : SubscriptionRow} (hs : s ∈ db.subscriptions)
    (hstep : DrainStep db s.toQueueSubscription item.toQueueSubscription) :
    DrainsKept db (storeSubscription item db) := by
  intro x hx
  refine ⟨_, mem_updateWhere_of_mem _ hx, ?_⟩
  split
  next hid =>
    obtain rfl : x = s := eq_of_key_eq hnd hx hs ((of_decide_eq_true hid).trans hstep.id)
    exact hstep
  · exact .refl db _

theorem updateQueueSubscription_drainsKept {item item' : QueueSubscription} {version : Int}
    (h : updateQueueSubscription item version db = .ok (item', db')) : DrainsKept db db' := by
  unfold updateQueueSubscription at h
  split at h
  · cases h
  next hs =>
  split at h
  · cases h
  split at h
  · split at h
    · cases h
    · cases h
      exact storeSubscription_drainsKept hnd (findSubscription_some hs).1 ⟨rfl, rfl, fun _ => rfl, .inl rfl⟩
  · cases h

theorem beginDrain_drainsKept
    (h : beginDrain appId subscriptionId startedAt deadlineAt db = .ok db') : DrainsKept db db' := by
  obtain ⟨s, row, hs, hrow, rfl⟩ := beginDrain_ok h
  refine storeSubscription_drainsKept hnd (findSubscription_some hs).1 ?_
  rw [hrow]
  refine ⟨rfl, rfl, fun hdraining => ?_, .inl rfl⟩
  obtain ⟨t, ht⟩ := isSome_iff_exists.mp hdraining
  show some (s.drainingAt.getD startedAt) = s.drainingAt
  rw [ht, getD_some]

theorem finishDrain_drainsKept {drain : QueueDrain}
    (hcount : r.startedAt.isSome = true → inFlightCount db r.subscriptionId ≤ r.inFlight)
    (h : finishDrain r db = .ok (drain, db')) : DrainsKept db db' := by
  rcases finishDrain_ok h with rfl | ⟨hstart, hzero, hwrite⟩
  · exact .of_eq rfl
  rcases writeDrained_ok hwrite with rfl | ⟨s, row, hs, hdraining, hdrained, hid, happ, hrow, rfl⟩
  · exact .of_eq rfl
  obtain ⟨hmem, -, hname⟩ := findSubscription_some hs
  refine storeSubscription_drainsKept hnd hmem
    ⟨hid, happ, fun _ => hrow, .inr ⟨hdrained, by rw [hrow]; exact hdraining, ?_⟩⟩
  have hle := hcount hstart
  rw [hname]
  omega

theorem getQueueDrain_drainsKept {drain : QueueDrain}
    (h : getQueueDrain appId subscriptionId now db = .ok (drain, db')) : DrainsKept db db' := by
  rw [getQueueDrain_eq] at h
  cases hread : readDrain appId subscriptionId now db with
  | error =>
    rw [hread] at h
    cases h
  | ok =>
    rw [hread] at h
    refine finishDrain_drainsKept hnd (fun _ => ?_) h
    -- nothing has happened since the read
    obtain ⟨s, hs, rfl⟩ := readDrain_ok hread
    rw [(findSubscription_some hs).2.2]

end Kept

theorem beginDrain_sameWork (h : beginDrain appId subscriptionId startedAt deadlineAt db = .ok db') :
    SameWork db db' := by
  obtain ⟨s, row, -, -, rfl⟩ := beginDrain_ok h
  exact (storeSubscription_configured row db).sameWork

theorem finishDrain_sameWork {drain : QueueDrain} (h : finishDrain r db = .ok (drain, db')) : SameWork db db' := by
  rcases finishDrain_ok h with rfl | ⟨-, -, hwrite⟩
  · exact .refl _
  · rcases writeDrained_ok hwrite with rfl | ⟨s, row, -, -, -, -, -, -, rfl⟩
    · exact .refl _
    · exact (storeSubscription_configured row db).sameWork

variable {D : Digests} {id : String} {s : DrainState} {gaps : Nat → List DeadLetterOp} {request : QueuePullRequest}

theorem Inv.drainsKept (h : Inv db) (op : QueueOp) : DrainsKept db ((queue D).next db op) := by
  have hnd := h.subscriptionIds
  by_cases hop : op.writesSubscriptions = false
  · exact .of_eq ((exec_frame D db op).subscriptions hop)
  have hrefl : DrainsKept db db := .of_eq rfl
  show DrainsKept db (exec D db op).2
  cases op with
  | createSubscription =>
    refine commitDone_kept hrefl fun db' hok => ?_
    unfold createQueueSubscription at hok
    split at hok
    · split at hok
      · cases hok
      · cases hok
        exact fun s hs => ⟨s, mem_append_left _ hs, .refl db _⟩
    · cases hok
  | updateSubscription =>
    exact commit_kept hrefl fun _ _ hok => updateQueueSubscription_drainsKept hnd hok
  | beginDrain appId subscriptionId startedAt deadlineAt =>
    rw [exec, beginQueueDrain_eq]
    cases hbegin : beginDrain appId subscriptionId startedAt deadlineAt db with
    | error => exact hrefl
    | ok db₁ =>
      have hkept := beginDrain_drainsKept hnd hbegin
      have hwork := beginDrain_sameWork hbegin
      dsimp only
      cases hget : getQueueDrain appId subscriptionId startedAt db₁ with
      | error => exact hkept
      | ok =>
        exact hkept.trans hwork.deliveries (getQueueDrain_drainsKept (hwork.subscriptionIds hnd) hget)
  | getDrain =>
    exact commit_kept hrefl fun _ _ hok => getQueueDrain_drainsKept hnd hok
  | _ => exact absurd rfl hop

/-! ## What is in flight -/

theorem Draining.find {sub : SubscriptionRow} (h : Draining db id) (hnd : (db.subscriptions.map (·.id)).Nodup)
    (hsub : db.findSubscription appId id = some sub) : sub.drainingAt.isSome = true := by
  obtain ⟨s, hs, hid, hdraining⟩ := h
  obtain ⟨hmem, -, hid'⟩ := findSubscription_some hsub
  obtain rfl : s = sub := eq_of_key_eq hnd hs hmem (hid.trans hid'.symm)
  exact hdraining

theorem leaseSelected_subscription {locked : List String} {terms : LeaseTerms} {k : Nat}
    {selected : List (DeliveryRow × EventRow)} {receipts : List String} {leased : List QueueDelivery}
    (h : leaseSelected D gaps locked terms k selected receipts db = .ok (leased, db')) :
    ∀ d ∈ leased, d.subscriptionId = terms.subscriptionId := by
  have hall := leaseSelected_induction (I := fun _ _ acc _ => ∀ d ∈ acc, d.subscriptionId = terms.subscriptionId)
    (fun hacc => forall_mem_concat hacc rfl) [] h (by simp)
  simpa using hall

theorem PullCase.leased_subscription {leased : List QueueDelivery} (h : PullCase D gaps db request leased db') :
    ∀ d ∈ leased, d.subscriptionId = request.subscriptionId := by
  cases h with
  | draining | full => simp
  | leasing sub hsub db₁ db₂ db₃ _ written hprepare hgap limit _ hlimit hgap' _ hlease =>
    exact leaseSelected_subscription hlease

/-- The deliveries an operation leases. -/
def QueueOut.leased : QueueOut → List QueueDelivery
  | .pulled deliveries => deliveries
  | _ => []

theorem exec_pull_draining (D : Digests) (gaps : Nat → List DeadLetterOp)
    (hnd : (db.subscriptions.map (·.id)).Nodup) (h : Draining db request.subscriptionId) :
    ((queue D).out db (.pull request gaps)).leased = [] ∧ (queue D).next db (.pull request gaps) = db := by
  show (exec D db (.pull request gaps)).1.leased = [] ∧ (exec D db (.pull request gaps)).2 = db
  rw [exec, pullQueueDeliveries]
  cases hsub : db.findSubscription request.appId request.subscriptionId with
  | none => exact ⟨rfl, rfl⟩
  | some =>
    dsimp only
    rw [if_pos (h.find hnd hsub)]
    exact ⟨rfl, rfl⟩

/-- **While a subscription drains**, no operation leases one of its deliveries, and no operation raises
the number in flight. -/
theorem draining_exec (hinv : Inv db) (hdraining : Draining db id) (op : QueueOp) :
    (∀ d ∈ ((queue D).out db op).leased, d.subscriptionId ≠ id) ∧
      inFlightCount ((queue D).next db op) id ≤ inFlightCount db id := by
  have hop := exec_operation (D := D) hinv.deliveryIds op
  rcases out_cases D db op with hnone | ⟨request, gaps, leased, rfl, hpull, hout⟩
  · refine ⟨fun d hd => ?_, ?_⟩
    · generalize (queue D).out db op = out at hnone hd
      cases out with
      | pulled =>
        rw [map_eq_nil_iff.mp hnone] at hd
        cases hd
      | _ => cases hd
    · rw [hnone] at hop
      exact hop.inFlightCount_le id
  · by_cases hid : request.subscriptionId = id
    · subst hid
      obtain ⟨hleased, hnext⟩ := exec_pull_draining D gaps hinv.subscriptionIds hdraining
      rw [hleased, hnext]
      exact ⟨by simp, le_refl _⟩
    · refine ⟨fun d hd => ?_, ?_⟩
      · rw [hout] at hd
        rw [hpull.leased_subscription d hd]
        exact hid
      · rcases hpull.inFlight hinv.deliveryIds with ⟨-, hle⟩ | ⟨sub, hsub, -, -, hle⟩
        · exact hle id
        · refine hle id fun heq => hid ?_
          rw [heq, (findSubscription_some hsub).2.2]

/-! ## Whole runs -/

/-- The deliveries a step leases. -/
def DrainOut.leased : DrainOut → List QueueDelivery
  | .queue out => out.leased
  | _ => []

/-- What a call in progress has read of a drain is still a bound: the subscription drains, and no more is in
flight than it read. -/
structure DrainInv (s : DrainState) : Prop where
  inv : Inv s.db
  reads : ∀ x ∈ s.reads, x.2.startedAt.isSome = true →
    Draining s.db x.2.subscriptionId ∧ inFlightCount s.db x.2.subscriptionId ≤ x.2.inFlight

theorem DrainsKept.draining (h : DrainsKept db db') (hd : Draining db id) : Draining db' id := by
  obtain ⟨s, hs, hid, hdraining⟩ := hd
  obtain ⟨s', hs', hstep⟩ := h s hs
  exact ⟨s', hs', hstep.id.trans hid, by rw [hstep.draining hdraining]; exact hdraining⟩

/-- A step is an operation of the queue, or it leaves the work alone; and what is read is read from the
tables as they are. -/
theorem DrainInv.cases (h : DrainInv s) (op : DrainOp) : (∃ qop, op = .queue qop) ∨
      (SameWork s.db ((drainSystem D).next s op).db ∧ DrainsKept s.db ((drainSystem D).next s op).db ∧
        ((drainSystem D).out s op).leased = [] ∧
        ∀ x ∈ ((drainSystem D).next s op).reads, x ∈ s.reads ∨ ((drainSystem D).next s op).db = s.db ∧
            ∃ appId id now, readDrain appId id now s.db = .ok x.2) := by
  have hnd := h.inv.subscriptionIds
  cases op with
  | queue qop => exact .inl ⟨qop, rfl⟩
  | begin appId subscriptionId startedAt deadlineAt =>
    right
    simp only [Mealy.next, Mealy.out, drainSystem, drainExec]
    cases hbegin : beginDrain appId subscriptionId startedAt deadlineAt s.db with
    | error => exact ⟨.refl _, .of_eq rfl, rfl, fun x hx => .inl hx⟩
    | ok =>
      exact ⟨beginDrain_sameWork hbegin, beginDrain_drainsKept hnd hbegin, rfl, fun x hx => .inl hx⟩
  | read call appId subscriptionId now =>
    right
    simp only [Mealy.next, Mealy.out, drainSystem, drainExec]
    cases hread : readDrain appId subscriptionId now s.db with
    | error => exact ⟨.refl _, .of_eq rfl, rfl, fun x hx => .inl hx⟩
    | ok =>
      refine ⟨.refl _, .of_eq rfl, rfl, fun x hx => ?_⟩
      rcases mem_cons.mp hx with rfl | hx
      · exact .inr ⟨rfl, _, _, _, hread⟩
      · exact .inl hx
  | finish call =>
    right
    simp only [Mealy.next, Mealy.out, drainSystem, drainExec]
    cases hfind : s.reads.find? (fun r => r.1 = call) with
    | none => exact ⟨.refl _, .of_eq rfl, rfl, fun x hx => .inl hx⟩
    | some x =>
      dsimp only
      cases hfinish : finishDrain x.2 s.db with
      | error =>
        exact ⟨.refl _, .of_eq rfl, rfl, fun x hx => .inl (mem_of_mem_filter hx)⟩
      | ok =>
        have hcount := fun hstart => (h.reads x (mem_of_find?_eq_some hfind) hstart).2
        exact ⟨finishDrain_sameWork hfinish, finishDrain_drainsKept hnd hcount hfinish, rfl,
          fun x hx => .inl (mem_of_mem_filter hx)⟩

section Step

variable {D : Digests} {s : DrainState} (h : DrainInv s) (op : DrainOp)

include h

theorem DrainInv.drainsKept : DrainsKept s.db ((drainSystem D).next s op).db := by
  rcases h.cases op with ⟨qop, rfl⟩ | ⟨-, hkept, -⟩
  · exact h.inv.drainsKept qop
  · exact hkept

/-- **While a subscription drains**, no step leases one of its deliveries or raises its number in
flight. -/
theorem DrainInv.inFlight_le (hd : Draining s.db id) :
    (∀ d ∈ ((drainSystem D).out s op).leased, d.subscriptionId ≠ id) ∧
      inFlightCount ((drainSystem D).next s op).db id ≤ inFlightCount s.db id := by
  rcases h.cases op with ⟨qop, rfl⟩ | ⟨hwork, -, hleased, -⟩
  · exact draining_exec h.inv hd qop
  · rw [hleased, inFlightCount, hwork.deliveries]
    exact ⟨by simp, le_refl _⟩

theorem DrainInv.next : DrainInv ((drainSystem D).next s op) := by
  have hkept := h.drainsKept (D := D) op
  -- what was read before stays a bound, since the number in flight only falls
  have hold : ∀ x ∈ s.reads, x.2.startedAt.isSome = true → Draining ((drainSystem D).next s op).db x.2.subscriptionId ∧
        inFlightCount ((drainSystem D).next s op).db x.2.subscriptionId ≤ x.2.inFlight := by
    intro x hx hstart
    obtain ⟨hd, hle⟩ := h.reads x hx hstart
    exact ⟨hkept.draining hd, (h.inFlight_le op hd).2.trans hle⟩
  rcases h.cases op with ⟨qop, rfl⟩ | ⟨hwork, -, -, hreads⟩
  · exact ⟨h.inv.next qop, hold⟩
  refine ⟨h.inv.control hwork, fun x hx hstart => ?_⟩
  rcases hreads x hx with hx | ⟨hdb, appId, id, now, hread⟩
  · exact hold x hx hstart
  obtain ⟨sub, hsub, heq⟩ := readDrain_ok hread
  obtain ⟨hmem, -, hid⟩ := findSubscription_some hsub
  rw [heq] at hstart ⊢
  rw [hdb]
  exact ⟨⟨sub, hmem, hid, hstart⟩, by rw [hid]⟩

end Step

theorem drain_inv (D : Digests) (ops : List DrainOp) : DrainInv ((drainSystem D).run {} ops) :=
  (drainSystem D).run_induction ⟨.empty, by simp⟩ (fun _ op h => h.next op) ops

/-- `drained_at` of a subscription. -/
def DrainedAt (db : QueueDb) (id : String) (at? : Option Int) : Prop :=
  ∃ s ∈ db.subscriptions, s.id = id ∧ s.drainedAt = at?

instance (db : QueueDb) (id : String) (at? : Option Int) : Decidable (DrainedAt db id at?) :=
  inferInstanceAs (Decidable (∃ s ∈ db.subscriptions, s.id = id ∧ s.drainedAt = at?))

section Step

variable {D : Digests} {s : DrainState} (h : DrainInv s) (op : DrainOp) {id : String} {c c' : Option Int}

include h

/-- `drained_at` changes only from null, of a subscription that drains, and only while nothing is in
flight. -/
theorem DrainInv.drained_step (hpre : DrainedAt s.db id c)
    (hpost : DrainedAt ((drainSystem D).next s op).db id c') (hne : c' ≠ c) :
    c = none ∧ inFlightCount s.db id = 0 ∧ Draining ((drainSystem D).next s op).db id := by
  obtain ⟨x, hx, rfl, rfl⟩ := hpre
  obtain ⟨y, hy, hid, rfl⟩ := hpost
  obtain ⟨x', hx', hstep⟩ := h.drainsKept op x hx
  obtain rfl : x' = y := eq_of_key_eq (h.next op).inv.subscriptionIds hx' hy (hstep.id.trans hid.symm)
  rcases hstep.drained with heq | ⟨hnone, hdraining, hzero⟩
  · exact absurd heq hne
  · exact ⟨hnone, hzero, x', hx', hstep.id, hdraining⟩

/-- A step that writes `drained_at` leaves the deliveries alone. -/
theorem DrainInv.deliveries_of_drained (hpre : DrainedAt s.db id c)
    (hpost : DrainedAt ((drainSystem D).next s op).db id c') (hne : c' ≠ c) :
    ((drainSystem D).next s op).db.deliveries = s.db.deliveries := by
  rcases h.cases op with ⟨qop, rfl⟩ | ⟨hwork, -⟩
  · refine (exec_frame D s.db qop).deliveries ?_
    by_contra hwrites
    have hsubs := (exec_frame D s.db qop).subscriptions (Bool.eq_false_iff.mpr hwrites)
    obtain ⟨x, hx, hid, rfl⟩ := hpre
    obtain ⟨y, hy, hid', rfl⟩ := hpost
    have hy' : y ∈ s.db.subscriptions := hsubs ▸ hy
    obtain rfl : x = y := eq_of_key_eq h.inv.subscriptionIds hx hy' (hid.trans hid'.symm)
    exact hne rfl
  · exact hwork.deliveries

/-- A subscription that is drained and drains, with nothing in flight, stays so. -/
theorem DrainInv.drained_kept {t : Int} (hd : Draining s.db id) (hat : DrainedAt s.db id (some t))
    (hzero : inFlightCount s.db id = 0) :
    Draining ((drainSystem D).next s op).db id ∧ DrainedAt ((drainSystem D).next s op).db id (some t) ∧
      inFlightCount ((drainSystem D).next s op).db id = 0 := by
  have hkept := h.drainsKept (D := D) op
  refine ⟨hkept.draining hd, ?_, Nat.le_zero.mp ((h.inFlight_le op hd).2.trans_eq hzero)⟩
  obtain ⟨x, hx, rfl, hxt⟩ := hat
  obtain ⟨x', hx', hstep⟩ := hkept x hx
  rcases hstep.drained with heq | ⟨hnone, -⟩
  · exact ⟨x', hx', hstep.id, heq.trans hxt⟩
  · rw [hxt] at hnone
    cases hnone

end Step

/-- A call that reads a drained subscription with nothing in flight reports it, whatever commits before
the call ends. -/
theorem finishDrain_drained {t : Int} (hnd : (db.subscriptions.map (·.id)).Nodup) (hd : Draining db id)
    (hat : DrainedAt db id (some t)) (hzero : inFlightCount db id = 0) (hread : readDrain appId id now db = .ok r) :
    ∃ drain, finishDrain r db' = .ok (drain, db') ∧ drain.status = .drained ∧ drain.inFlight = 0 ∧
      drain.completedAt = some t := by
  obtain ⟨s, hs, rfl⟩ := readDrain_ok hread
  obtain ⟨hmem, -, hid⟩ := findSubscription_some hs
  obtain ⟨x, hx, hxid, hxt⟩ := hat
  obtain rfl : x = s := eq_of_key_eq hnd hx hmem (hxid.trans hid.symm)
  have hstart : ¬ x.drainingAt.isNone = true := by
    rw [isNone_iff_eq_none, ← ne_eq, ← isSome_iff_ne_none]
    exact hd.find hnd hs
  have hcount : inFlightCount db x.id = 0 := by rw [hid]; exact hzero
  unfold finishDrain
  rw [if_neg hstart, if_pos hcount, hxt]
  exact ⟨_, rfl, rfl, hcount, rfl⟩

theorem begin_draining (h : (drainSystem D).out s (.begin appId id startedAt deadlineAt) = .done) :
    Draining ((drainSystem D).next s (.begin appId id startedAt deadlineAt)).db id := by
  simp only [Mealy.next, Mealy.out, drainSystem, drainExec] at h ⊢
  cases hbegin : beginDrain appId id startedAt deadlineAt s.db with
  | error =>
    rw [hbegin] at h
    cases h
  | ok =>
    obtain ⟨x, row, hx, hrow, rfl⟩ := beginDrain_ok hbegin
    obtain ⟨hmem, -, hid⟩ := findSubscription_some hx
    have hrowId : row.id = x.id := by
      rw [hrow]
      rfl
    refine ⟨row, mem_updateWhere.mpr ⟨x, hmem, ?_⟩, hrowId.trans hid, ?_⟩
    · rw [if_pos (decide_eq_true hrowId.symm)]
    · rw [congrArg QueueSubscription.drainingAt hrow]
      rfl

/-- From the state in which `drained_at` is written on. -/
theorem drained_run {t : Int} (h : DrainInv s) (hd : Draining s.db id) (hat : DrainedAt s.db id (some t))
    (hzero : inFlightCount s.db id = 0) (ops : List DrainOp) :
    DrainInv ((drainSystem D).run s ops) ∧
      Draining ((drainSystem D).run s ops).db id ∧ DrainedAt ((drainSystem D).run s ops).db id (some t) ∧
      inFlightCount ((drainSystem D).run s ops).db id = 0 :=
  (drainSystem D).run_induction
    (P := fun s => DrainInv s ∧ Draining s.db id ∧ DrainedAt s.db id (some t) ∧ inFlightCount s.db id = 0)
    ⟨h, hd, hat, hzero⟩
    (fun _ op hs => ⟨hs.1.next op, hs.1.drained_kept op hs.2.1 hs.2.2.1 hs.2.2.2⟩) ops

/-- **Drain safety**, in every run of the queue's operations with drains and drain reports in between.

1. A `BeginQueueDrain` that commits makes the subscription drain. From then on no step leases one of its
   deliveries, and no step raises its number in flight.
2. `drained_at` changes only from null, and only in a state with nothing in flight.
3. Once it is written nothing is in flight any more, and every `GetQueueDrain` that starts reports the
   drain as done at that time, whatever commits while it runs. -/
theorem drain_safety (D : Digests) (ops : List DrainOp) :
    (∀ t ∈ (drainSystem D).transitions {} ops, ∀ appId id startedAt deadlineAt,
      t.input = .begin appId id startedAt deadlineAt → t.output = .done → Draining t.post.db id) ∧
    (∀ before after id, ops = before ++ after → Draining ((drainSystem D).run {} before).db id →
      ∀ t ∈ (drainSystem D).transitions ((drainSystem D).run {} before) after,
        (∀ d ∈ t.output.leased, d.subscriptionId ≠ id) ∧
          inFlightCount t.post.db id ≤ inFlightCount t.pre.db id) ∧
    (∀ t ∈ (drainSystem D).transitions {} ops, ∀ id c c', DrainedAt t.pre.db id c →
      DrainedAt t.post.db id c' → c' ≠ c → c = none ∧ inFlightCount t.pre.db id = 0) ∧
    (∀ before op after id t, ops = before ++ op :: after →
      DrainedAt ((drainSystem D).run {} before).db id none →
      DrainedAt ((drainSystem D).run {} (before ++ [op])).db id (some t) →
      ∀ mid, mid <+: after → inFlightCount ((drainSystem D).run {} (before ++ op :: mid)).db id = 0 ∧
        ∀ appId now r, readDrain appId id now ((drainSystem D).run {} (before ++ op :: mid)).db = .ok r →
          ∀ db', ∃ drain, finishDrain r db' = .ok (drain, db') ∧ drain.status = .drained ∧
            drain.inFlight = 0 ∧ drain.completedAt = some t) := by
  refine ⟨?_, ?_, ?_, ?_⟩
  · intro t ht appId id startedAt deadlineAt hinput hout
    obtain ⟨as, bs, -, -, hout', hpost⟩ := (drainSystem D).exists_split_of_mem_transitions ht
    rw [hinput] at hout' hpost
    rw [hout] at hout'
    rw [hpost]
    exact begin_draining hout'.symm
  · intro before after id _ hdraining t ht
    obtain ⟨as, bs, -, hpre, hout, hpost⟩ := (drainSystem D).exists_split_of_mem_transitions ht
    -- a drain goes on along the run
    have hrun : DrainInv t.pre ∧ Draining t.pre.db id := by
      rw [hpre]
      exact (drainSystem D).run_induction (P := fun s => DrainInv s ∧ Draining s.db id)
        ⟨drain_inv D before, hdraining⟩ (fun _ op hs => ⟨hs.1.next op, (hs.1.drainsKept op).draining hs.2⟩) as
    rw [hout, hpost]
    exact hrun.1.inFlight_le t.input hrun.2
  · intro t ht id c c' hpre hpost hne
    obtain ⟨as, bs, -, hrun, -, hnext⟩ := (drainSystem D).exists_split_of_mem_transitions ht
    have hinv : DrainInv t.pre := hrun ▸ drain_inv D as
    rw [hnext] at hpost
    obtain ⟨hnone, hzero, -⟩ := hinv.drained_step t.input hpre hpost hne
    exact ⟨hnone, hzero⟩
  · intro before op after id t _ hpre hpost mid _
    have hinv := drain_inv D before
    rw [Mealy.run_concat] at hpost
    have hne : some t ≠ none := Option.some_ne_none t
    obtain ⟨-, hzero, hdraining⟩ := hinv.drained_step op hpre hpost hne
    -- the writing step leaves the deliveries alone, so nothing is in flight after it either
    have hzero' : inFlightCount ((drainSystem D).next ((drainSystem D).run {} before) op).db id = 0 := by
      rw [inFlightCount, hinv.deliveries_of_drained op hpre hpost hne]
      exact hzero
    have hrun := drained_run (D := D) (hinv.next op) hdraining hpost hzero' mid
    rw [Mealy.run_append]
    exact ⟨hrun.2.2.2, fun appId now r hread db' =>
      finishDrain_drained hrun.1.inv.subscriptionIds hrun.2.1 hrun.2.2.1 hrun.2.2.2 hread⟩

/-- A drain that begins with one delivery in flight. Two reports start before the delivery is settled and
one after; that one writes `drained_at` before the others end. -/
def drainedBefore : List DrainOp :=
  [.queue (.createSubscription sampleSubscription), .queue (.publish (samplePublication "evt_1" 0)),
    .queue (samplePull 0 ["qrc_1"]), .begin "app_1" "qsub_1" (1 * second) (31 * second),
    .read 1 "app_1" "qsub_1" (2 * second), .queue (sampleSettle "qrc_1" .ack (3 * second)),
    .read 2 "app_1" "qsub_1" (4 * second)]

theorem drain_safety_settled :
    let after : List DrainOp := [.finish 1, .queue (samplePull (5 * second) ["qrc_2"])]
    ∀ mid, mid <+: after →
      inFlightCount ((drainSystem sampleDigests).run {} (drainedBefore ++ .finish 2 :: mid)).db "qsub_1" = 0 ∧
        ∀ appId now r, readDrain appId "qsub_1" now
            ((drainSystem sampleDigests).run {} (drainedBefore ++ .finish 2 :: mid)).db = .ok r →
          ∀ db', ∃ drain, finishDrain r db' = .ok (drain, db') ∧ drain.status = .drained ∧
            drain.inFlight = 0 ∧ drain.completedAt = some (4 * second) :=
  (drain_safety sampleDigests _).2.2.2 drainedBefore (.finish 2) _ "qsub_1" (4 * second) rfl
    (by decide +kernel) (by decide +kernel)

end RelayHub.Queue
