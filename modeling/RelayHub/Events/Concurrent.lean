import RelayHub.Events.Codec
import RelayHub.Events.Effects
import RelayHub.Queue.Dedup

/-! # RelayHub events — publications at once

`PublishEvent` takes an advisory lock on the source and the key, removes an expired record, reads the record and
goes on to the end of its transaction; meanwhile other calls start, wait, commit and fail, and applications and
subscriptions change. `publishers` is that system: a call that has the lock is *open*, and everything after the
record was read happens when the call ends, since the share locks on its targets keep them as they were read.

`publishers_cases` says once what each step does. -/

namespace RelayHub.Events

open List Queue Delivery

/-! ## Calls -/

/-- The arguments of a call of `PublishEvent`, and `clock_timestamp()` when it removes the expired record. -/
structure PublishCall where
  publication : Publication
  key : String
  retention : EventRetention
  clock : Int

def PublishCall.source (c : PublishCall) : String := c.publication.event.sourceAppId

section

variable (E : StoreEnv)

def PublishCall.hash (c : PublishCall) : String := idempotencyHash E c.source c.key

/-- When the record that the call may store expires. -/
def PublishCall.expiresAt (c : PublishCall) : Int :=
  micros (c.publication.event.createdAt + c.retention.idempotency)

/-- `advisoryKey`: the first 64 bits of the digest. -/
def advisoryKey (source hash : String) : String :=
  String.ofList ((E.digests.sha256 (source ++ "\x00" ++ hash)).toList.take 16)

def PublishCall.lock (c : PublishCall) : String := advisoryKey E c.source (c.hash E)

/-- The `DELETE` of a call: an expired record of its key. -/
def dropExpired (c : PublishCall) (db : EventDb) : EventDb :=
  { db with
    idempotency := db.idempotency.filter fun r =>
      !(r.isFor c.source (c.hash E) && decide (r.expiresAt ≤ c.clock)) }

/-- The `SELECT` of a call. -/
def findRecord (c : PublishCall) (db : EventDb) : Option Publication :=
  ((dropExpired E c db).idempotency.find? (IdempotencyRow.isFor c.source (c.hash E))).map (·.publication)

/-- The rest of the transaction, up to its commit. -/
def completePublish (c : PublishCall) (found : Option Publication) (db : EventDb) :
    Except StoreError ((Publication × Bool) × EventDb) :=
  match found with
  | some p => .ok ((p, true), dropExpired E c db)
  | none =>
    (insertPublication E c.publication (c.hash E) c.retention (dropExpired E c db)).map
      fun r => ((r.1, false), r.2)

theorem publishEvent_eq (c : PublishCall) (db : EventDb) : publishEvent E c.publication c.key c.retention c.clock db =
      if validatePublication c.publication c.key c.retention then
        completePublish E c (findRecord E c db) db
      else .error .conflict := by
  unfold publishEvent
  cases validatePublication c.publication c.key c.retention with
  | false => rfl
  | true =>
    rcases hfind : (dropExpired E c db).idempotency.find? (IdempotencyRow.isFor c.source (c.hash E)) with _ | r
    · have hfound : findRecord E c db = none := by rw [findRecord, hfind, Option.map_none]
      rw [hfound]
      simp only [dropExpired, PublishCall.hash, PublishCall.source] at hfind
      simp only [hfind]
      rfl
    · have hfound : findRecord E c db = some r.publication := by rw [findRecord, hfind, Option.map_some]
      rw [hfound]
      simp only [dropExpired, PublishCall.hash, PublishCall.source] at hfind
      simp only [hfind]
      rfl

/-! ## The system -/

/-- A call that has the advisory lock, with what its `SELECT` found. -/
structure OpenCall where
  id : Nat
  call : PublishCall
  found : Option Publication

structure PublishState where
  db : EventDb
  calls : List OpenCall := []

def PublishState.close (s : PublishState) (id : Nat) : List OpenCall :=
  s.calls.filter fun x => decide (x.id ≠ id)

inductive PublishOp where
  /-- A call asks for its lock. It is tried again as long as another call has it. -/
  | start (id : Nat) (call : PublishCall)
  | finish (id : Nat)
  /-- The connection of a call breaks. -/
  | abort (id : Nat)
  /-- Other transactions change applications, whose ids stay unique, and subscriptions. -/
  | configure (applications : List Application) (hids : (applications.map (·.id)).Nodup)
      (subscriptions : List SubscriptionRow)

inductive PublishOut where
  | quiet
  | returned (call : PublishCall) (result : Except StoreError (Publication × Bool))

def publishExec (s : PublishState) : PublishOp → PublishOut × PublishState
  | .start id c =>
    if !validatePublication c.publication c.key c.retention then (.returned c (.error .conflict), s)
    else if s.calls.any fun x => x.id = id || x.call.lock E = c.lock E then (.quiet, s)
    else (.quiet, { s with calls := ⟨id, c, findRecord E c s.db⟩ :: s.calls })
  | .finish id =>
    match s.calls.find? (·.id = id) with
    | none => (.quiet, s)
    | some x =>
      match completePublish E x.call x.found s.db with
      | .error e => (.returned x.call (.error e), { s with calls := s.close id })
      | .ok (r, db) => (.returned x.call (.ok r), { db, calls := s.close id })
  | .abort id =>
    match s.calls.find? (·.id = id) with
    | none => (.quiet, s)
    | some x => (.returned x.call (.error .database), { s with calls := s.close id })
  | .configure applications _ subscriptions =>
    (.quiet, { s with db := { s.db with applications, queue := { s.db.queue with subscriptions } } })

/-- The publishers as a machine. -/
def publishers : Mealy PublishState PublishOp PublishOut where
  exec := publishExec E

/-- **What a step does.** -/
inductive PublishCase (E : StoreEnv) (s : PublishState) : PublishOp → PublishOut → PublishState → Prop where
  /-- A call waits for its lock, or there is no such call. -/
  | idle (op : PublishOp) : PublishCase E s op .quiet s
  | rejected (id : Nat) (c : PublishCall) : PublishCase E s (.start id c) (.returned c (.error .conflict)) s
  | opened (id : Nat) (c : PublishCall) (hvalid : validatePublication c.publication c.key c.retention = true)
      (hfree : ∀ x ∈ s.calls, x.call.lock E ≠ c.lock E) :
      PublishCase E s (.start id c) .quiet { s with calls := ⟨id, c, findRecord E c s.db⟩ :: s.calls }
  | failed (op : PublishOp) (x : OpenCall) (hx : x ∈ s.calls) (e : StoreError) :
      PublishCase E s op (.returned x.call (.error e)) { s with calls := s.close x.id }
  | replayed (op : PublishOp) (x : OpenCall) (hx : x ∈ s.calls) (p : Publication) (hfound : x.found = some p) :
      PublishCase E s op (.returned x.call (.ok (p, true)))
        { db := dropExpired E x.call s.db, calls := s.close x.id }
  | committed (op : PublishOp) (x : OpenCall) (hx : x ∈ s.calls) (hfound : x.found = none) (p : Publication)
      (db' : EventDb) (h : insertPublication E x.call.publication (x.call.hash E) x.call.retention
        (dropExpired E x.call s.db) = .ok (p, db')) :
      PublishCase E s op (.returned x.call (.ok (p, false))) { db := db', calls := s.close x.id }
  | configured (applications : List Application) (hids : (applications.map (·.id)).Nodup)
      (subscriptions : List SubscriptionRow) :
      PublishCase E s (.configure applications hids subscriptions) .quiet
        { s with db := { s.db with applications, queue := { s.db.queue with subscriptions } } }

theorem publishers_cases (s : PublishState) (op : PublishOp) :
    PublishCase E s op ((publishers E).out s op) ((publishers E).next s op) := by
  show PublishCase E s op (publishExec E s op).1 (publishExec E s op).2
  cases op with
  | start id c =>
    simp only [publishExec]
    split
    · exact .rejected id c
    next hvalid =>
    split
    · exact .idle _
    next hbusy =>
      refine .opened id c (by simpa using hvalid) fun x hx heq => hbusy (any_eq_true.mpr ⟨x, hx, ?_⟩)
      simp [heq]
  | finish id =>
    simp only [publishExec]
    split
    · exact .idle _
    next x hx =>
    have hmem := mem_of_find?_eq_some hx
    obtain rfl : x.id = id := by simpa using find?_some hx
    cases hfound : x.found with
    | some p => exact .replayed _ x hmem p hfound
    | none =>
      simp only [completePublish]
      cases hins : insertPublication E x.call.publication (x.call.hash E) x.call.retention
          (dropExpired E x.call s.db) with
      | error e => exact .failed _ x hmem e
      | ok r => exact .committed _ x hmem hfound r.1 r.2 hins
  | abort id =>
    simp only [publishExec]
    split
    · exact .idle _
    next x hx =>
      obtain rfl : x.id = id := by simpa using find?_some hx
      exact .failed _ x (mem_of_find?_eq_some hx) .database
  | configure applications hids subscriptions => exact .configured applications hids subscriptions

/-! ## Records -/

/-- The records of a key. -/
def EventDb.records (db : EventDb) (source hash : String) : List IdempotencyRow :=
  db.idempotency.filter (IdempotencyRow.isFor source hash)

/-- The call is for the records of `source` and `hash`. -/
def PublishCall.isFor (source hash : String) (c : PublishCall) : Bool :=
  c.source = source && c.hash E = hash

end

variable {E : StoreEnv} {source hash : String}

section Records

variable {c : PublishCall} {db db' : EventDb}

theorem isFor_iff : c.isFor E source hash = true ↔ c.source = source ∧ c.hash E = hash := by
  simp [PublishCall.isFor]

theorem recordFor_iff {r : IdempotencyRow} :
    r.isFor source hash = true ↔ r.sourceAppId = source ∧ r.keyHash = hash := by
  simp [IdempotencyRow.isFor]

theorem records_dropExpired_of_isFor (h : c.isFor E source hash = true) (db : EventDb) :
    (dropExpired E c db).records source hash =
      (db.records source hash).filter fun r => !decide (r.expiresAt ≤ c.clock) := by
  obtain ⟨rfl, rfl⟩ := isFor_iff.mp h
  rw [EventDb.records, EventDb.records, dropExpired, filter_filter, filter_filter]
  refine filter_congr fun r _ => ?_
  cases r.isFor c.source (c.hash E) <;> simp

theorem records_dropExpired_of_not (h : c.isFor E source hash = false) (db : EventDb) :
    (dropExpired E c db).records source hash = db.records source hash := by
  rw [EventDb.records, dropExpired, filter_filter]
  refine filter_congr fun r _ => ?_
  cases hr : r.isFor source hash with
  | false => rfl
  | true =>
    have hother : r.isFor c.source (c.hash E) = false := by
      refine Bool.eq_false_iff.mpr fun heq => ?_
      obtain ⟨hsource, hhash⟩ := recordFor_iff.mp hr
      obtain ⟨hsource', hhash'⟩ := recordFor_iff.mp heq
      rw [isFor_iff.mpr ⟨hsource'.symm.trans hsource, hhash'.symm.trans hhash⟩] at h
      cases h
    simp [hother]

theorem findRecord_eq (h : c.isFor E source hash = true) (db : EventDb) :
    findRecord E c db = (((db.records source hash).filter fun r => !decide (r.expiresAt ≤ c.clock)).head?).map
      (·.publication) := by
  rw [← records_dropExpired_of_isFor h]
  obtain ⟨rfl, rfl⟩ := isFor_iff.mp h
  rw [EventDb.records, head?_filter, findRecord]

theorem insertSinks_keeps {e : Event} {ns : List NewDelivery} (h : insertSinks E e ns db = .ok db') :
    db'.idempotency = db.idempotency ∧ db'.applications = db.applications := by
  induction ns generalizing db with
  | nil =>
    cases h
    exact ⟨rfl, rfl⟩
  | cons n ns ih =>
    unfold insertSinks at h
    split at h
    · cases h
    next db₁ hn =>
    have hone : db₁.idempotency = db.idempotency ∧ db₁.applications = db.applications := by
      unfold insertSink at hn
      grind
    obtain ⟨hrecords, happlications⟩ := ih h
    exact ⟨hrecords.trans hone.1, happlications.trans hone.2⟩

theorem insertPublication_record {p q : Publication} {retention : EventRetention}
    (h : insertPublication E p hash retention db = .ok (q, db')) :
    ∃ e, p.event.stored = some e ∧ q.event = p.event ∧ db'.applications = db.applications ∧
      db'.idempotency = db.idempotency ++
        [⟨p.event.sourceAppId, hash, ⟨e, q.jobs⟩, micros (p.event.createdAt + retention.idempotency)⟩] := by
  unfold insertPublication at h
  split at h
  · cases h
  next policies hlock =>
  dsimp only at h
  split at h
  · cases h
  split at h
  · cases h
  split at h
  · cases h
  next hsinks =>
  split at h
  · cases h
  next e hstored =>
  cases h
  obtain ⟨hrecords, happlications⟩ := insertSinks_keeps hsinks
  exact ⟨e, hstored, rfl, happlications, congrArg (· ++ _) hrecords⟩

theorem records_committed (source hash : String) {p : Publication}
    (h : insertPublication E c.publication (c.hash E) c.retention db = .ok (p, db')) :
    ∃ e, p.event.stored = some e ∧ p.event = c.publication.event ∧ db'.records source hash = db.records source hash ++
        if c.isFor E source hash then [⟨source, hash, ⟨e, p.jobs⟩, c.expiresAt⟩] else [] := by
  obtain ⟨e, hstored, hevent, -, hrecords⟩ := insertPublication_record h
  refine ⟨e, hevent ▸ hstored, hevent, ?_⟩
  rw [EventDb.records, hrecords, filter_append, filter_cons]
  congr 1
  cases hfor : c.isFor E source hash with
  | true =>
    obtain ⟨rfl, rfl⟩ := isFor_iff.mp hfor
    exact (if_pos (recordFor_iff.mpr ⟨rfl, rfl⟩)).trans rfl
  | false =>
    rw [if_neg]
    · rfl
    · intro hmine
      rw [isFor_iff.mpr (recordFor_iff.mp hmine)] at hfor
      cases hfor

end Records

/-! ## One key -/

/-- What a step returned to a call that `p` holds of, if the call succeeded. -/
def PublishOut.success (p : PublishCall → Bool) : PublishOut → Option (PublishCall × Publication × Bool)
  | .returned c (.ok r) => if p c then some (c, r) else none
  | _ => none

/-- The calls that `p` holds of and that succeeded, in order. -/
def successes (p : PublishCall → Bool) (ts : List (Transition PublishState PublishOp PublishOut)) :
    List (PublishCall × Publication × Bool) :=
  ts.filterMap fun t => t.output.success p

def PublishOp.call : PublishOp → Option PublishCall
  | .start _ c => some c
  | _ => none

/-- The calls of a run. -/
def callsIn (ops : List PublishOp) : List PublishCall := ops.filterMap PublishOp.call

/-- Open calls are among `calls` and valid, and no two of them have the same lock. -/
structure LockInv (E : StoreEnv) (calls : List PublishCall) (s : PublishState) : Prop where
  locks : (s.calls.map fun x => x.call.lock E).Nodup
  started : ∀ x ∈ s.calls, x.call ∈ calls
  valid : ∀ x ∈ s.calls, validatePublication x.call.publication x.call.key x.call.retention = true

/-- `r` is the record of its key, and what the open call of the key found. -/
structure Recorded (E : StoreEnv) (source hash : String) (r : IdempotencyRow) (s : PublishState) : Prop where
  records : s.db.records source hash = [r]
  calls : ∀ x ∈ s.calls, x.call.isFor E source hash = true → x.found = some r.publication

/-- **Where a key is.** No call of it has succeeded and its records are the old ones, or one call has published and
its copy is the record. -/
inductive KeyState (E : StoreEnv) (source hash : String) (old : List IdempotencyRow) (s : PublishState) :
    List (PublishCall × Publication × Bool) → Prop where
  | unpublished (hrecords : s.db.records source hash = old)
      (hcalls : ∀ x ∈ s.calls, x.call.isFor E source hash = true → x.found = none) :
      KeyState E source hash old s []
  | published (c : PublishCall) (p : Publication) (e : Event) (rest : List (PublishCall × Publication × Bool))
      (hevent : p.event = c.publication.event) (hstored : p.event.stored = some e)
      (hrecorded : Recorded E source hash ⟨source, hash, ⟨e, p.jobs⟩, c.expiresAt⟩ s)
      (hrest : ∀ y ∈ rest, y.2 = (⟨e, p.jobs⟩, true)) :
      KeyState E source hash old s ((c, p, false) :: rest)

section Key

variable {old : List IdempotencyRow} {calls : List PublishCall} {s s' : PublishState} {op : PublishOp}
  {out : PublishOut} {L : List (PublishCall × Publication × Bool)}

theorem LockInv.only (h : LockInv E calls s) {x y : OpenCall} (hx : x ∈ s.calls)
    (hfor : x.call.isFor E source hash = true) (hy : y ∈ s.close x.id) : y.call.isFor E source hash = false := by
  refine Bool.eq_false_iff.mpr fun hyfor => ?_
  obtain ⟨hmem, hne⟩ := mem_filter.mp hy
  have hlock : y.call.lock E = x.call.lock E := by
    rw [PublishCall.lock, PublishCall.lock, (isFor_iff.mp hyfor).1, (isFor_iff.mp hyfor).2, (isFor_iff.mp hfor).1,
      (isFor_iff.mp hfor).2]
  obtain rfl : y = x := Table.eq_of_key_eq h.locks hmem hx hlock
  exact of_decide_eq_true hne rfl

variable (hlock : LockInv E calls s) (hcase : PublishCase E s op out s') (hstart : ∀ c, op.call = some c → c ∈ calls)

include hlock hcase hstart

theorem LockInv.step : LockInv E calls s' := by
  have hclose : ∀ {db : EventDb} (id : Nat), LockInv E calls ⟨db, s.close id⟩ := fun id =>
    ⟨(filter_sublist.map _).nodup hlock.locks, fun x hx => hlock.started x (mem_of_mem_filter hx),
      fun x hx => hlock.valid x (mem_of_mem_filter hx)⟩
  cases hcase with
  | idle | rejected => exact hlock
  | opened id c hvalid hfree =>
    refine ⟨nodup_cons.mpr ⟨fun hmem => ?_, hlock.locks⟩, fun x hx => ?_, fun x hx => ?_⟩
    · obtain ⟨x, hx, heq⟩ := mem_map.mp hmem
      exact hfree x hx heq
    · rcases mem_cons.mp hx with rfl | hx
      · exact hstart c rfl
      · exact hlock.started x hx
    · rcases mem_cons.mp hx with rfl | hx
      · exact hvalid
      · exact hlock.valid x hx
  | failed _ x | replayed _ x | committed _ x => exact hclose x.id
  | configured => exact ⟨hlock.locks, hlock.started, hlock.valid⟩

/-- A record stays while it is unexpired, and the calls of its key return it. -/
theorem Recorded.step {r : IdempotencyRow} (h : Recorded E source hash r s)
    (hlive : ∀ c ∈ calls, c.isFor E source hash = true → c.clock < r.expiresAt) :
    Recorded E source hash r s' ∧ ∀ y ∈ out.success (PublishCall.isFor E source hash), y.2 = (r.publication, true) := by
  have hclose : ∀ {db : EventDb} (id : Nat), db.records source hash = s.db.records source hash →
      Recorded E source hash r ⟨db, s.close id⟩ := fun id hrecords =>
    ⟨hrecords.trans h.records, fun x hx => h.calls x (mem_of_mem_filter hx)⟩
  cases hcase with
  | idle | rejected => exact ⟨h, fun y hy => (by cases hy)⟩
  | opened id c =>
    refine ⟨⟨h.records, fun x hx hfor => ?_⟩, fun y hy => (by cases hy)⟩
    rcases mem_cons.mp hx with rfl | hx
    · have hunexpired := hlive c (hstart c rfl) hfor
      show findRecord E c s.db = some _
      rw [findRecord_eq hfor, h.records]
      simp [hunexpired]
    · exact h.calls x hx hfor
  | failed _ x => exact ⟨hclose x.id rfl, fun y hy => (by cases hy)⟩
  | replayed _ x hx q hfound =>
    cases hfor : x.call.isFor E source hash with
    | false =>
      refine ⟨hclose x.id (records_dropExpired_of_not hfor s.db), fun y hy => ?_⟩
      simp [PublishOut.success, hfor] at hy
    | true =>
      cases (h.calls x hx hfor).symm.trans hfound
      have hunexpired := hlive x.call (hlock.started x hx) hfor
      refine ⟨hclose x.id ?_, fun y hy => ?_⟩
      · rw [records_dropExpired_of_isFor hfor, h.records]
        simp [hunexpired]
      · simp only [PublishOut.success, hfor, if_true, Option.mem_some_iff] at hy
        rw [← hy]
  | committed _ x hx hfound p db' hins =>
    cases hfor : x.call.isFor E source hash with
    | true => cases (h.calls x hx hfor).symm.trans hfound
    | false =>
      obtain ⟨e, -, -, hrecords⟩ := records_committed source hash hins
      rw [hfor, records_dropExpired_of_not hfor] at hrecords
      refine ⟨hclose x.id (hrecords.trans (append_nil _)), fun y hy => ?_⟩
      simp [PublishOut.success, hfor] at hy
  | configured => exact ⟨⟨h.records, h.calls⟩, fun y hy => (by cases hy)⟩

theorem unpublished_step (hrecords : s.db.records source hash = old)
    (hcalls : ∀ x ∈ s.calls, x.call.isFor E source hash = true → x.found = none)
    (hold : ∀ c ∈ calls, c.isFor E source hash = true → ∀ r ∈ old, r.expiresAt ≤ c.clock) :
    KeyState E source hash old s' (out.success (PublishCall.isFor E source hash)).toList := by
  have hkeep : ∀ {s₁ : PublishState}, s₁.db.records source hash = s.db.records source hash →
      s₁.calls ⊆ s.calls → KeyState E source hash old s₁ [] := fun hrec hsub =>
    .unpublished (hrec.trans hrecords) fun x hx => hcalls x (hsub hx)
  have hclose : ∀ id, s.close id ⊆ s.calls := fun id => filter_sublist.subset
  cases hcase with
  | idle | rejected | configured => exact hkeep rfl (List.Subset.refl _)
  | opened id c =>
    refine .unpublished hrecords fun x hx hfor => ?_
    rcases mem_cons.mp hx with rfl | hx
    · -- every old record is expired
      show findRecord E c s.db = none
      rw [findRecord_eq hfor, hrecords, filter_eq_nil_iff.mpr]
      · rfl
      · intro r hr
        simpa using hold c (hstart c rfl) hfor r hr
    · exact hcalls x hx hfor
  | failed _ x => exact hkeep rfl (hclose x.id)
  | replayed _ x hx q hfound =>
    cases hfor : x.call.isFor E source hash with
    | true => cases (hcalls x hx hfor).symm.trans hfound
    | false =>
      simp only [PublishOut.success, hfor, Bool.false_eq_true, if_false, Option.toList_none]
      exact hkeep (records_dropExpired_of_not hfor s.db) (hclose x.id)
  | committed _ x hx hfound p db' hins =>
    obtain ⟨e, hstored, hevent, hrec⟩ := records_committed source hash hins
    cases hfor : x.call.isFor E source hash with
    | false =>
      simp only [PublishOut.success, hfor, Bool.false_eq_true, if_false, Option.toList_none]
      rw [hfor, records_dropExpired_of_not hfor] at hrec
      exact hkeep (hrec.trans (append_nil _)) (hclose x.id)
    | true =>
      simp only [PublishOut.success, hfor, if_true, Option.toList_some]
      rw [hfor, records_dropExpired_of_isFor hfor, hrecords, filter_eq_nil_iff.mpr] at hrec
      · refine .published x.call p e [] hevent hstored ⟨hrec, fun y hy hyfor => ?_⟩ fun y hy => (by cases hy)
        rw [hlock.only hx hfor hy] at hyfor
        cases hyfor
      · intro r hr
        simpa using hold x.call (hlock.started x hx) hfor r hr

theorem KeyState.step (h : KeyState E source hash old s L)
    (hold : ∀ c ∈ calls, c.isFor E source hash = true → ∀ r ∈ old, r.expiresAt ≤ c.clock)
    (hnew : ∀ y ∈ L, y.2.2 = false → ∀ c ∈ calls, c.isFor E source hash = true → c.clock < y.1.expiresAt) :
    KeyState E source hash old s' (L ++ (out.success (PublishCall.isFor E source hash)).toList) := by
  cases h with
  | unpublished hrecords hcalls => exact unpublished_step hlock hcase hstart hrecords hcalls hold
  | published c p e rest hevent hstored hrecorded hrest =>
    obtain ⟨hrecorded', hout⟩ := hrecorded.step hlock hcase hstart (hnew _ mem_cons_self rfl)
    exact .published c p e _ hevent hstored hrecorded'
      (forall_mem_append.mpr ⟨hrest, fun y hy => hout y (Option.mem_toList.mp hy)⟩)

end Key

end RelayHub.Events
