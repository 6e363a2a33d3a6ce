import Mathlib.Logic.Function.Basic
import RelayHub.Lib.Mealy
import RelayHub.Lib.Table
import RelayHub.Lib.Text
import RelayHub.Rust.Quota

/-! # RelayHub Rust backend — identical publishes

`publish_legacy` looks for an event with the idempotency key, and if there is none, it starts a transaction that inserts
one. Of the requests that have found none, one inserts its event. The others violate the unique constraint, and that is
answered with a conflict. The requests are those of one application with one key and content; the applications and the
routing rules do not change. Ids are fresh: the event of a request has its number. -/

namespace RelayHub.Rust

open List

inductive PublishError where
  | invalidInput
  | conflict
  | internal
  deriving DecidableEq

structure QueueInput (Value : Type) where
  availableAt : Option String := none
  delaySeconds : Option Int := none
  orderingKey : Option String := none
  priority : Option Int := none
  deduplicationKey : Option String := none
  metadata : Option Value := none

structure EventInput (Value : Type) where
  type : String
  targetAppIds : List String := []
  data : Value
  queue : Option (QueueInput Value) := none

structure PublishRequest (Value : Type) where
  idempotencyKey : String
  input : EventInput Value

/-- The payload of an event; its body is the text of the data, before base64. -/
structure LegacyPayload where
  eventType : String
  body : String
  queue : String

/-- What serde, the `uuid` crate and PostgreSQL read and write. -/
structure Codecs (Value : Type) where
  isObject : Value → Bool
  text : Value → String
  parse : String → Option Value
  ofQueue : Option (QueueInput Value) → Value
  object : Value
  octetLength : LegacyPayload → Nat
  parseUuid : String → Option Uuid
  uuidText : Uuid → String
  timestamptz : String → Bool
  jsonb : String → Bool

inductive DeliveryMode where
  | queue
  | websocket
  | callback
  | all
  deriving DecidableEq

inductive Sink where
  | stream
  | callback
  deriving DecidableEq

structure IdentityApp where
  workspaceId : Uuid
  enabled : Bool
  deliveryMode : DeliveryMode
  callbackUrl : Option String := none

structure RoutingRule where
  workspaceId : Uuid
  sourceAppId : Option Uuid
  targetAppId : Uuid
  eventType : String
  enabled : Bool
  deleted : Bool

/-- The application that publishes, and what the requests find in the tables. -/
structure Directory where
  workspace : Uuid
  sourceApp : Uuid
  apps : Uuid → Option IdentityApp
  /-- The application with a `legacy_source_id`. -/
  legacy : String → Option Uuid := fun _ => none
  /-- In the order of `created_at,id`. -/
  rules : List RoutingRule := []

structure EventRow where
  id : Uuid
  idempotencyKey : String
  payload : LegacyPayload
  payloadBytes : Nat
  targetAppIds : List String

structure PublishedDelivery where
  /-- The number of the delivery among those of its event. -/
  job : Nat
  eventId : Uuid
  targetAppId : Uuid
  sink : Sink
  deriving DecidableEq

/-- The tables, as far as the application and its workspace are concerned. -/
structure Tables where
  events : List EventRow := []
  deliveries : List PublishedDelivery := []
  quota : Quota := {}

/-- What a request is answered with. -/
structure PublicationJson (Value : Type) where
  id : Uuid
  type : String
  targetAppIds : List String
  data : Value
  queue : Value
  jobs : List Nat
  deriving DecidableEq

/-- The flag is that of `Idempotent-Replayed`. -/
abbrev PublishReply (Value : Type) := Except PublishError (PublicationJson Value × Bool)

variable {Value : Type} (C : Codecs Value) (D : Directory)

/-! ## The request -/

def QueueInput.valid (q : QueueInput Value) : Bool :=
  !(q.availableAt.isSome && q.delaySeconds.isSome) && q.delaySeconds.all (fun n => 0 ≤ n && n ≤ 2592000) &&
    q.orderingKey.all (·.utf8ByteSize ≤ 128) && q.priority.all (fun n => -10 ≤ n && n ≤ 10) &&
    q.deduplicationKey.all (·.utf8ByteSize ≤ 256) &&
    q.metadata.all fun m => C.isObject m && (C.text m).utf8ByteSize ≤ 16384

/-- The checks of `publish_event_compat`. -/
def PublishRequest.valid (r : PublishRequest Value) : Bool :=
  0 < r.idempotencyKey.utf8ByteSize && r.idempotencyKey.utf8ByteSize ≤ 256 && Text.trimSpace r.input.type ≠ "" &&
    r.input.type.utf8ByteSize ≤ 128 && C.isObject r.input.data && (C.text r.input.data).utf8ByteSize ≤ 1048576 &&
    r.input.queue.all (QueueInput.valid C)

def Directory.resolveTarget (targets : List (Uuid × String)) (label : String) :
    Except PublishError (List (Uuid × String)) :=
  match (C.parseUuid (Text.trimSpace label)).or (D.legacy (Text.trimSpace label)) with
  | none => .error .conflict
  | some id =>
    if id ∈ targets.map Prod.fst ∨ id = D.sourceApp then .error .invalidInput
    else if (D.apps id).any fun app => app.workspaceId = D.workspace && app.enabled then
      .ok (targets ++ [(id, Text.trimSpace label)])
    else .error .invalidInput

def Directory.labels (input : EventInput Value) : List String :=
  let rules := D.rules.filter fun rule => rule.workspaceId = D.workspace && rule.enabled && !rule.deleted &&
    rule.sourceAppId.all (· = D.sourceApp) && rule.eventType = Text.trimSpace input.type
  if input.targetAppIds = [] then rules.map fun rule => C.uuidText rule.targetAppId else input.targetAppIds

def Directory.resolveTargets (input : EventInput Value) : Except PublishError (List (Uuid × String)) :=
  if D.labels C input = [] ∨ 100 < (D.labels C input).length then .error .invalidInput
  else (D.labels C input).foldlM (D.resolveTarget C) []

/-! ## The transaction -/

def EventInput.payload (input : EventInput Value) : LegacyPayload where
  eventType := Text.trimSpace input.type
  body := C.text input.data
  queue := C.text (C.ofQueue input.queue)

def eventRow (n : Nat) (r : PublishRequest Value) (targets : List (Uuid × String)) : EventRow where
  id := n
  idempotencyKey := r.idempotencyKey
  payload := r.input.payload C
  payloadBytes := (C.text r.input.data).utf8ByteSize
  targetAppIds := targets.map Prod.snd

def IdentityApp.sinks (app : IdentityApp) : List Sink :=
  (if app.deliveryMode ∈ [.queue, .websocket, .all] then [.stream] else []) ++
    if app.deliveryMode ∈ [.callback, .all] ∧ app.callbackUrl.any (Text.trimSpace · ≠ "") then [.callback] else []

/-- The INSERT of a delivery, with the trigger and the index on event, target and generation. -/
def Tables.insertDelivery (n payloadBytes : Nat) (target : Uuid) (t : Tables) (sink : Sink) :
    Except PublishError Tables :=
  match t.quota.charge payloadBytes with
  | none => .error .internal
  | some quota =>
    if t.deliveries.any fun d => d.eventId = n && d.targetAppId = target then .error .conflict
    else .ok { t with
      deliveries := t.deliveries ++ [⟨(t.deliveries.filter (·.eventId = n)).length, n, target, sink⟩]
      quota := quota }

/-- The casts in the INSERT into `queue_deliveries`. -/
def EventInput.casts (input : EventInput Value) : Bool :=
  (input.queue.bind (·.availableAt)).all C.timestamptz &&
    C.jsonb (C.text ((input.queue.bind (·.metadata)).getD C.object))

/-- The statements for a target; `subscribers` are the subscriptions that the INSERT into `queue_deliveries` selects. -/
def Tables.insertTarget (n payloadBytes : Nat) (input : EventInput Value) (subscribers : Uuid → Nat) (t : Tables)
    (target : Uuid × String) : Except PublishError Tables :=
  match (D.apps target.1).filter fun app => app.workspaceId = D.workspace && app.enabled with
  | none => .error .internal
  | some app =>
    if app.sinks = [] then .error .invalidInput
    else do
      let t ← app.sinks.foldlM (Tables.insertDelivery n payloadBytes target.1) t
      if 0 < subscribers target.1 ∧ !input.casts C then .error .internal else .ok t

/-- The transaction of `publish_legacy`. -/
def Tables.publishLegacy (t : Tables) (n : Nat) (r : PublishRequest Value) (targets : List (Uuid × String))
    (subscribers : Uuid → Nat) : Except PublishError Tables :=
  let row := eventRow C n r targets
  if t.events.any (·.idempotencyKey = r.idempotencyKey) then .error .conflict
  else if 2097152 < C.octetLength row.payload then .error .internal
  else targets.foldlM (Tables.insertTarget C D n row.payloadBytes r.input subscribers)
    { t with events := t.events ++ [row] }

/-! ## The answers -/

def Tables.publicationJson (t : Tables) (id : Uuid) : Except PublishError (PublicationJson Value) :=
  match t.events.find? (·.id = id) with
  | none => .error .conflict
  | some row =>
    match C.parse row.payload.queue with
    | none => .error .internal
    | some queue => .ok {
        id, type := row.payload.eventType, targetAppIds := row.targetAppIds
        data := (C.parse row.payload.body).getD C.object, queue
        jobs := (t.deliveries.filter (·.eventId = id)).map (·.job) }

variable [DecidableEq Value]

/-- `same_request`. -/
def EventRow.same (row : EventRow) (input : EventInput Value) (targets : List (Uuid × String)) : Bool :=
  match C.parse row.payload.queue, C.parse row.payload.body with
  | some queue, some data =>
    row.payload.eventType = Text.trimSpace input.type && data = input.data && queue = C.ofQueue input.queue &&
      row.targetAppIds = targets.map Prod.snd
  | _, _ => false

inductive PublishPhase (Value : Type) where
  | received
  /-- It has resolved its targets and found no event. -/
  | missing (targets : List (Uuid × String))
  | answered (reply : PublishReply Value)

/-- The checks and the lookup. -/
def Tables.lookup (t : Tables) (r : PublishRequest Value) : PublishPhase Value :=
  if !r.valid C then .answered (.error .invalidInput)
  else
    match D.resolveTargets C r.input with
    | .error e => .answered (.error e)
    | .ok targets =>
      match t.events.find? (·.idempotencyKey = r.idempotencyKey) with
      | none => .missing targets
      | some row =>
        if row.same C r.input targets then .answered ((t.publicationJson C row.id).map (·, true))
        else .answered (.error .conflict)

structure Publishes (Value : Type) extends Tables where
  phases : Nat → PublishPhase Value := fun _ => .received

inductive PublishStep where
  /-- The request makes its next step: the lookup, and then the transaction. -/
  | advance (n : Nat) (subscribers : Uuid → Nat)
  /-- Other requests of the workspace. -/
  | account (quota : Quota)

variable (r : PublishRequest Value)

def Publishes.step (s : Publishes Value) : PublishStep → Publishes Value
  | .advance n subscribers =>
    match s.phases n with
    | .received => { s with phases := Function.update s.phases n (s.lookup C D r) }
    | .missing targets =>
      match s.publishLegacy C D n r targets subscribers with
      | .ok t => ⟨t, Function.update s.phases n (.answered ((t.publicationJson C n).map (·, false)))⟩
      | .error e => { s with phases := Function.update s.phases n (.answered (.error e)) }
    | .answered _ => s
  | .account quota => { s with quota }

def publishes : Mealy (Publishes Value) PublishStep Unit where
  exec s i := ((), s.step C D r i)

/-! ## Identical requests -/

variable (targets : List (Uuid × String))

/-- The request can be published: it is valid, each of its targets has one sink, and what is stored reads as it was. -/
structure Publishable : Prop where
  valid : r.valid C = true
  resolved : D.resolveTargets C r.input = .ok targets
  sinks : ∀ target ∈ targets, ∀ app ∈ D.apps target.1, ∃ sink, app.sinks = [sink]
  casts : r.input.casts C = true
  length : C.octetLength (r.input.payload C) ≤ 2097152
  data : C.parse (C.text r.input.data) = some r.input.data
  queue : C.parse (C.text (C.ofQueue r.input.queue)) = some (C.ofQueue r.input.queue)

def Quota.Room (q : Quota) (count payloadBytes : Nat) : Prop :=
  q.outstandingDeliveries + count ≤ 10000 ∧ q.outstandingPayloadBytes + count * payloadBytes ≤ 104857600

/-- A request that finds no event finds no other one before its transaction, and the quota has room for
the deliveries. -/
def Publishes.Undisturbed (s : Publishes Value) : PublishStep → Prop
  | .advance n _ =>
    match s.phases n with
    | .received => s.events = [] → ∀ m found, s.phases m ≠ .missing found
    | .missing _ => s.quota.Room targets.length (C.text r.input.data).utf8ByteSize
    | .answered _ => True
  | .account _ => True

/-- An answer is the one event with its jobs, and as replayed unless the request has created it. -/
def Publishes.Agree (s : Publishes Value) : Prop :=
  ∀ n reply, s.phases n = .answered reply → ∃ e p, s.events = [eventRow C e r targets] ∧
    s.publicationJson C e = .ok p ∧ s.phases e = .answered (.ok (p, false)) ∧ reply = .ok (p, decide (n ≠ e))

section Transaction

variable {C D} {r targets} {t t' : Tables} {n payloadBytes : Nat} {target : Uuid × String} {subscribers : Uuid → Nat}
  {input : EventInput Value}

omit [DecidableEq Value]

/-- What every round of a loop keeps, the loop keeps if it succeeds. -/
theorem foldlM_ok {σ α : Type} {f : σ → α → Except PublishError σ} {I : σ → Prop}
    (hf : ∀ {s a s'}, f s a = .ok s' → I s → I s') {l : List α} {s s' : σ} (h : l.foldlM f s = .ok s') (hI : I s) :
    I s' := by
  induction l generalizing s with
  | nil => cases h; exact hI
  | cons a l ih =>
    rw [foldlM_cons] at h
    cases hs : f s a with
    | error e => rw [hs] at h; cases h
    | ok s₁ => rw [hs] at h; exact ih h (hf hs hI)

/-- The targets are distinct enabled applications of the workspace. -/
def Distinct (D : Directory) (targets : List (Uuid × String)) : Prop :=
  (targets.map Prod.fst).Nodup ∧
    ∀ target ∈ targets, ∃ app ∈ D.apps target.1, app.workspaceId = D.workspace ∧ app.enabled = true

theorem resolveTargets_ok (h : D.resolveTargets C input = .ok targets) : Distinct D targets := by
  unfold Directory.resolveTargets at h
  split at h
  · cases h
  refine foldlM_ok (I := Distinct D) (fun {found label found'} hf hfound => ?_) h ⟨nodup_nil, by simp⟩
  unfold Directory.resolveTarget at hf
  split at hf
  · cases hf
  next id _ =>
    split at hf
    · cases hf
    next hnew =>
      split at hf
      next happ =>
        cases hf
        push Not at hnew
        refine ⟨Table.nodup_keys_concat hfound.1 fun x hx heq => hnew.1 (mem_map.mpr ⟨x, hx, heq⟩),
          Table.forall_mem_concat hfound.2 ?_⟩
        cases hid : D.apps id with
        | none => simp [hid] at happ
        | some app => exact ⟨app, rfl, by simpa [hid] using happ⟩
      · cases hf

/-- The statements for the targets succeed if there is room. -/
theorem insertTargets_ok (hcasts : input.casts C = true) (hroom : t.quota.Room targets.length payloadBytes)
    (hdistinct : Distinct D targets) (hsinks : ∀ target ∈ targets, ∀ app ∈ D.apps target.1, ∃ sink, app.sinks = [sink])
    (hfresh : ∀ d ∈ t.deliveries, d.eventId = n → d.targetAppId ∉ targets.map Prod.fst) :
    ∃ t', targets.foldlM (Tables.insertTarget C D n payloadBytes input subscribers) t = .ok t' ∧
      t'.events = t.events := by
  induction targets generalizing t with
  | nil => exact ⟨t, rfl, rfl⟩
  | cons target targets ih =>
    obtain ⟨hnodup, happs⟩ := hdistinct
    obtain ⟨app, happ, henabled⟩ := happs target (.head _)
    obtain ⟨sink, hsink⟩ := hsinks target (.head _) app happ
    obtain ⟨hcount, hbytes⟩ := hroom
    rw [length_cons] at hcount hbytes
    rw [Nat.succ_mul] at hbytes
    have hnew : (t.deliveries.any fun d => d.eventId = n && d.targetAppId = target.1) = false := by
      simp only [any_eq_false, Bool.and_eq_true, decide_eq_true_eq, not_and]
      exact fun d hd heq => (not_or.mp (mt mem_cons.mpr (hfresh d hd heq))).1
    have hcharge : t.quota.charge payloadBytes =
        some ⟨t.quota.outstandingDeliveries + 1, t.quota.outstandingPayloadBytes + payloadBytes⟩ :=
      if_pos ⟨by omega, by omega⟩
    have hstep : t.insertTarget C D n payloadBytes input subscribers target = .ok { t with
        deliveries := t.deliveries ++ [⟨(t.deliveries.filter (·.eventId = n)).length, n, target.1, sink⟩]
        quota := ⟨t.quota.outstandingDeliveries + 1, t.quota.outstandingPayloadBytes + payloadBytes⟩ } := by
      have hselect : ((D.apps target.1).filter fun app => app.workspaceId = D.workspace && app.enabled) = some app := by
        rw [Option.mem_def.mp happ, Option.filter_some_pos (by simpa using henabled)]
      simp [Tables.insertTarget, hselect, hsink, Tables.insertDelivery, hcharge, hnew, hcasts]
      rfl
    rw [foldlM_cons, hstep]
    rw [map_cons, nodup_cons] at hnodup
    refine ih ⟨?_, ?_⟩ ⟨hnodup.2, fun x hx => happs x (.tail _ hx)⟩ (fun x hx => hsinks x (.tail _ hx)) ?_
    · dsimp only
      omega
    · dsimp only
      omega
    · exact Table.forall_mem_concat (fun d hd heq => (not_or.mp (mt mem_cons.mpr (hfresh d hd heq))).2) fun _ => hnodup.1

/-- **The transaction succeeds** if there is no event and the quota has room. -/
theorem publishLegacy_ok (h : Publishable C D r targets)
    (hroom : t.quota.Room targets.length (C.text r.input.data).utf8ByteSize) (hevents : t.events = [])
    (hdeliveries : t.deliveries = []) :
    ∃ t', t.publishLegacy C D n r targets subscribers = .ok t' ∧ t'.events = [eventRow C n r targets] := by
  have hlength : ¬ 2097152 < C.octetLength (eventRow C n r targets).payload := Nat.not_lt.mpr h.length
  rw [Tables.publishLegacy, hevents, any_nil, if_neg Bool.false_ne_true, if_neg hlength]
  exact insertTargets_ok h.casts hroom (resolveTargets_ok h.resolved) h.sinks (by simp [hdeliveries])

theorem publicationJson_ok (h : Publishable C D r targets) (hevents : t.events = [eventRow C n r targets]) :
    ∃ p, t.publicationJson C n = .ok p := by
  simp [Tables.publicationJson, hevents, eventRow, EventInput.payload, h.queue]

end Transaction

section Runs

variable {C D r targets} {s : Publishes Value} {run : List PublishStep}

/-- The requests before there is an event, and after. -/
inductive Publishes.Stage (C : Codecs Value) (r : PublishRequest Value) (targets : List (Uuid × String))
    (s : Publishes Value) : Prop where
  | before (hevents : s.events = []) (hdeliveries : s.deliveries = [])
      (hphase : ∀ n, s.phases n = .received ∨ s.phases n = .missing targets)
      (hone : ∀ n m, s.phases n = .missing targets → s.phases m = .missing targets → n = m)
  | after (e : Nat) (p : PublicationJson Value) (hevents : s.events = [eventRow C e r targets])
      (hjson : s.publicationJson C e = .ok p) (hcreator : s.phases e = .answered (.ok (p, false)))
      (hphase : ∀ n ≠ e, s.phases n = .received ∨ s.phases n = .answered (.ok (p, true)))

omit [DecidableEq Value] in
theorem Publishes.Stage.agree (h : s.Stage C r targets) : s.Agree C r targets := by
  intro n reply hreply
  cases h with
  | before _ _ hphase => rcases hphase n with h | h <;> cases h.symm.trans hreply
  | after e p hevents hjson hcreator hphase =>
    refine ⟨e, p, hevents, hjson, hcreator, ?_⟩
    by_cases hne : n = e
    · subst hne
      cases hcreator.symm.trans hreply
      simp
    · rcases hphase n hne with h | h
      · cases h.symm.trans hreply
      · cases h.symm.trans hreply
        simp [hne]

theorem lookup_missing (h : Publishable C D r targets) {t : Tables} (hevents : t.events = []) :
    t.lookup C D r = .missing targets := by
  simp [Tables.lookup, h.valid, h.resolved, hevents]

/-- A lookup that finds the event answers with it: what is stored is what was sent. -/
theorem lookup_found (h : Publishable C D r targets) {t : Tables} {e : Nat} {p : PublicationJson Value}
    (hevents : t.events = [eventRow C e r targets]) (hjson : t.publicationJson C e = .ok p) :
    t.lookup C D r = .answered (.ok (p, true)) := by
  have hsame : (eventRow C e r targets).same C r.input targets = true := by
    simp [EventRow.same, eventRow, EventInput.payload, h.data, h.queue]
  have hkey : (eventRow C e r targets).idempotencyKey = r.idempotencyKey := rfl
  have hid : t.publicationJson C (eventRow C e r targets).id = .ok p := hjson
  simp [Tables.lookup, h.valid, h.resolved, hevents, hkey, hsame, hid, Except.map]

/-- **A step of a request keeps the stage**, or gets from the first one to the second. -/
theorem Publishes.Stage.step (hr : Publishable C D r targets) (h : s.Stage C r targets) (i : PublishStep)
    (hi : s.Undisturbed C r targets i) : (s.step C D r i).Stage C r targets := by
  cases i with
  | account quota =>
    cases h with
    | before hevents hdeliveries hphase hone => exact .before hevents hdeliveries hphase hone
    | after e p hevents hjson hcreator hphase => exact .after e p hevents hjson hcreator hphase
  | advance n subscribers =>
    unfold Publishes.step
    unfold Publishes.Undisturbed at hi
    dsimp only at hi ⊢
    split at hi
    next hn =>
      cases h with
      | before hevents hdeliveries hphase hone =>
        rw [lookup_missing hr hevents]
        have hfirst (m) (hm : Function.update s.phases n (.missing targets) m = .missing targets) : m = n := by
          by_contra hne
          exact hi hevents m targets (by rwa [Function.update_of_ne hne] at hm)
        refine .before hevents hdeliveries (fun m => ?_) fun m m' hm hm' => (hfirst m hm).trans (hfirst m' hm').symm
        by_cases hne : m = n
        · simp [hne]
        · simpa [hne] using hphase m
      | after e p hevents hjson hcreator hphase =>
        rw [lookup_found hr hevents hjson]
        have hne : e ≠ n := by
          rintro rfl
          cases hcreator.symm.trans hn
        refine .after e p hevents hjson (by simp [hne, hcreator]) fun m hm => ?_
        by_cases hmn : m = n
        · simp [hmn]
        · simpa [hmn] using hphase m hm
    next found hn =>
      cases h with
      | before hevents hdeliveries hphase hone =>
        obtain rfl : found = targets := by
          rcases hphase n with hp | hp <;> cases hp.symm.trans hn
          rfl
        obtain ⟨t, ht, hrow⟩ := publishLegacy_ok hr hi hevents hdeliveries
        obtain ⟨p, hp⟩ := publicationJson_ok hr hrow
        rw [ht]
        refine .after n p hrow hp (by simp [hp, Except.map]) fun m hm => .inl ?_
        simpa [hm] using (hphase m).resolve_right fun hp => hm (hone m n hp hn)
      | after e p hevents hjson hcreator hphase =>
        by_cases hne : n = e
        · cases (hne ▸ hcreator).symm.trans hn
        · rcases hphase n hne with hp | hp <;> cases hp.symm.trans hn
    · exact h

def PublishPhase.rank : PublishPhase Value → Nat
  | .received => 0
  | .missing _ => 1
  | .answered _ => 2

def PublishStep.isOf (n : Nat) : PublishStep → Bool
  | .advance m _ => m = n
  | .account _ => false

theorem rank_lookup_pos (t : Tables) (r : PublishRequest Value) : 0 < (t.lookup C D r).rank := by
  unfold Tables.lookup
  split
  · exact Nat.two_pos
  · split
    · exact Nat.two_pos
    · split
      · exact Nat.one_pos
      · split <;> exact Nat.two_pos

theorem phases_advance (s : Publishes Value) (n : Nat) (subscribers : Uuid → Nat) :
    ∃ phase, (s.step C D r (.advance n subscribers)).phases = Function.update s.phases n phase ∧
      min 2 ((s.phases n).rank + 1) ≤ phase.rank := by
  unfold Publishes.step
  dsimp only
  split
  next hn => exact ⟨_, rfl, (Nat.min_le_right ..).trans (hn ▸ rank_lookup_pos ..)⟩
  · split <;> exact ⟨_, rfl, Nat.min_le_left ..⟩
  next hn => exact ⟨_, (Function.update_eq_self n _).symm, hn ▸ Nat.min_le_left ..⟩

/-- A request that makes a step gets on, and no other step sends it back. -/
theorem rank_step (s : Publishes Value) (i : PublishStep) (n : Nat) :
    min 2 ((s.phases n).rank + (i.isOf n).toNat) ≤ ((s.step C D r i).phases n).rank := by
  cases i with
  | account => exact Nat.min_le_right ..
  | advance m subscribers =>
    obtain ⟨phase, hphases, hrank⟩ := phases_advance (C := C) (D := D) (r := r) s m subscribers
    rw [hphases, PublishStep.isOf]
    by_cases hne : n = m
    · simpa [hne] using hrank
    · simp [hne, Ne.symm hne]

theorem rank_run (s : Publishes Value) (run : List PublishStep) (n : Nat) :
    min 2 ((s.phases n).rank + run.countP (PublishStep.isOf n)) ≤ (((publishes C D r).run s run).phases n).rank := by
  induction run generalizing s with
  | nil => exact Nat.min_le_right ..
  | cons i run ih =>
    have hstep := rank_step (C := C) (D := D) (r := r) s i n
    have hrest := ih (s.step C D r i)
    have hrun : (publishes C D r).run s (i :: run) = (publishes C D r).run (s.step C D r i) run := rfl
    rw [hrun, countP_cons]
    cases hof : i.isOf n <;> simp [hof] at hstep ⊢ <;> omega

end Runs

/-- Values are their texts. -/
def plainCodecs : Codecs String where
  isObject _ := true
  text := id
  parse := some
  ofQueue _ := ""
  object := ""
  octetLength _ := 0
  parseUuid s := if s = "2" then some 2 else none
  uuidText _ := "2"
  timestamptz _ := true
  jsonb _ := true

/-- An application with a queue. -/
def oneTarget : Directory where
  workspace := 0
  sourceApp := 1
  apps id := if id = 2 then some ⟨0, true, .queue, none⟩ else none

def orderCreated : PublishRequest String := ⟨"k", { type := "order.created", targetAppIds := ["2"], data := "a" }⟩

theorem orderCreated_publishable : Publishable plainCodecs oneTarget orderCreated [(2, "2")] where
  valid := by decide
  resolved := by decide
  sinks := by
    rintro _ (_ | ⟨_, ⟨⟩⟩) _ ⟨⟩
    exact ⟨.stream, rfl⟩
  casts := rfl
  length := by decide
  data := rfl
  queue := rfl

/-- Two requests, one after the other. -/
def inTurn : List PublishStep := [.advance 0 fun _ => 1, .advance 0 fun _ => 1, .advance 1 fun _ => 1]

end RelayHub.Rust
