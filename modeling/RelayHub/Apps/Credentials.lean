import Mathlib.Data.List.Nodup
import RelayHub.Apps.Runs

/-! # RelayHub applications — credentials

A rotation revokes the active credential and inserts the next one, in two statements with a version that it has read
before. `Kept` is the invariant: the versions of an application count from one on, and all credentials but the newest
are revoked. Whoever asks later with the key of an older one does not find it. -/

namespace RelayHub.Apps

open List Program Transactions Credential

/-! ## The invariant -/

/-- The credentials of an application, oldest first. -/
structure Line (rows : List Credential) : Prop where
  versions : rows.map version = List.range' 1 rows.length
  newest : ∀ old current, rows = old ++ [current] → current.revokedAt = none ∧ ∀ c ∈ old, c.revokedAt ≠ none

structure Kept (data : Tables) : Prop where
  line : ∀ id, Line (data (.credentials id))
  present : ∀ id, data (.app id) = none ↔ data (.credentials id) = []
  keys : ∀ id, ∀ c ∈ data (.credentials id), data (.key c.apiKeyHash) = some id
  distinct : ∀ id, ((data (.credentials id)).map apiKeyHash).Nodup

/-- The credentials of an application after a turn: the same, or the old ones revoked and a new one. -/
def Extends (before after : List Credential) : Prop :=
  after = before ∨ ∃ t c, after = before.map (revoke t) ++ [c]

theorem line_nil : Line [] := ⟨rfl, fun old current h => by simp at h⟩

theorem foldl_max_range' (n : Nat) : (List.range' 1 n).foldl max 0 = n := by
  induction n with
  | zero => rfl
  | succ =>
    rw [range'_concat, foldl_append]
    simp only [foldl_cons, foldl_nil]
    omega

variable {rows : List Credential} {c : Credential}

theorem nextVersion_of_line (h : Line rows) : nextVersion rows = rows.length + 1 := by
  rw [nextVersion, h.versions, foldl_max_range']

@[simp] theorem version_revoke (t : Int) (c : Credential) : (c.revoke t).version = c.version := by
  unfold revoke
  split <;> rfl

@[simp] theorem apiKeyHash_revoke (t : Int) (c : Credential) : (c.revoke t).apiKeyHash = c.apiKeyHash := by
  unfold revoke
  split <;> rfl

theorem revokedAt_revoke (t : Int) (c : Credential) : (c.revoke t).revokedAt ≠ none := by
  unfold revoke
  split
  · simp
  next h => exact h

/-- **A rotation leads to the next version.** -/
theorem Line.rotate (h : Line rows) (t : Int) (hversion : c.version = nextVersion rows)
    (hactive : c.revokedAt = none) : Line (rows.map (revoke t) ++ [c]) := by
  refine ⟨?_, fun old current heq => ?_⟩
  · have hsame : (rows.map (.revoke t)).map version = rows.map version := by
      rw [map_map]
      exact map_congr_left fun c _ => version_revoke t c
    rw [map_append, hsame, h.versions, length_append, length_singleton,
      range'_concat, map_singleton, hversion, nextVersion_of_line h]
    simp [Nat.add_comm]
  · obtain ⟨rfl, hcurrent⟩ := append_inj' heq rfl
    obtain rfl := singleton_inj.mp hcurrent
    refine ⟨hactive, fun c' hc' => ?_⟩
    obtain ⟨c'', -, rfl⟩ := mem_map.mp hc'
    exact revokedAt_revoke t c''

variable {data data' : Tables}

/-- The next credential of an application, with a key that nobody has. -/
theorem Kept.extend {id : String} {row : App} {t : Int} (h : Kept data) (hfree : data (.key c.apiKeyHash) = none)
    (hversion : c.version = nextVersion (data (.credentials id))) (hactive : c.revokedAt = none)
    (hsets : Sets id row ((data (.credentials id)).map (revoke t) ++ [c]) (some c.apiKeyHash) data data') :
    Kept data' := by
  have hnew : ∀ i, ∀ c' ∈ data (.credentials i), c'.apiKeyHash ≠ c.apiKeyHash := by
    intro i c' hc' heq
    have hkey := h.keys i c' hc'
    rw [heq, hfree] at hkey
    cases hkey
  refine ⟨fun i => ?_, fun i => ?_, fun i c' hc' => ?_, fun i => ?_⟩
  · rw [hsets.credentials]
    split
    · exact (h.line id).rotate t hversion hactive
    · exact h.line i
  · rw [hsets.apps, hsets.credentials]
    split
    · simp
    · exact h.present i
  · rw [hsets.credentials] at hc'
    rw [hsets.keys]
    split at hc'
    next hi =>
      subst hi
      split
      · rfl
      next hne =>
      rcases mem_append.mp hc' with hc' | hc'
      · obtain ⟨c'', hc'', rfl⟩ := mem_map.mp hc'
        rw [apiKeyHash_revoke]
        exact h.keys i c'' hc''
      · obtain rfl := mem_singleton.mp hc'
        exact absurd rfl hne
    next =>
      rw [if_neg fun heq => hnew i c' hc' (Option.some.inj heq).symm]
      exact h.keys i c' hc'
  · rw [hsets.credentials]
    split
    · have hsame : ((data (.credentials id)).map (.revoke t)).map apiKeyHash =
          (data (.credentials id)).map apiKeyHash := by
        rw [map_map]
        exact map_congr_left fun c _ => apiKeyHash_revoke t c
      rw [map_append, hsame]
      refine nodup_append.mpr ⟨h.distinct id, by simp, fun a ha b hb => ?_⟩
      obtain rfl := mem_singleton.mp hb
      obtain ⟨c', hc', rfl⟩ := mem_map.mp ha
      exact hnew id c' hc'
    · exact h.distinct i

theorem Kept.row {id : String} {row row' : App} (h : Kept data) (hrow : data (.app id) = some row)
    (hsets : Sets id row' (data (.credentials id)) none data data') : Kept data' := by
  have hcredentials : ∀ i, data' (.credentials i) = data (.credentials i) := by
    intro i
    rw [hsets.credentials]
    split
    next hi => rw [hi]
    next => rfl
  have hkeys : ∀ k, data' (.key k) = data (.key k) := fun k => by rw [hsets.keys, if_neg (by simp)]
  refine ⟨fun i => ?_, fun i => ?_, fun i c hc => ?_, fun i => ?_⟩
  · rw [hcredentials]
    exact h.line i
  · rw [hcredentials, ← h.present, hsets.apps]
    split
    next hi =>
      subst hi
      simp [hrow]
    next => rfl
  · rw [hcredentials] at hc
    rw [hkeys]
    exact h.keys i c hc
  · rw [hcredentials]
    exact h.distinct i

/-- **A transaction keeps the invariant**, and only extends the credentials of an application. -/
theorem Performed.kept {a : Action} {result : Option App} (h : Performed data data' a result) (hkept : Kept data) :
    Kept data' ∧ ∀ id, Extends (data (.credentials id)) (data' (.credentials id)) := by
  have hextends : ∀ {id row rows key}, Sets id row rows key data data' → Extends (data (.credentials id)) rows →
      ∀ i, Extends (data (.credentials i)) (data' (.credentials i)) := by
    intro id row rows key hsets hextends i
    rw [hsets.credentials]
    split
    next hi => rwa [hi]
    next => exact .inl rfl
  cases h with
  | @create app h secret fresh free sets =>
    have hnone : data (.credentials app.id) = [] := (hkept.present app.id).mp fresh
    -- a first credential is a next one
    have hsets : Sets app.id app ((data (.credentials app.id)).map (.revoke 0) ++
        [⟨h, secret, app.createdAt, app.createdAt, 1, none⟩]) (some h) data data' := by
      rw [hnone] at sets ⊢
      exact sets
    refine ⟨hkept.extend free ?_ rfl hsets, hextends hsets (.inr ⟨_, _, rfl⟩)⟩
    rw [hnone]
    rfl
  | update found same sets | disable found sets => exact ⟨hkept.row found sets, hextends sets (.inl rfl)⟩
  | rotate found free sets => exact ⟨hkept.extend free rfl rfl sets, hextends sets (.inr ⟨_, _, rfl⟩)⟩

/-! ## Keys of older credentials -/

/-- The key is the key of a credential that is revoked. -/
def Superseded (h : String) (data : Tables) : Prop :=
  Kept data ∧ ∃ id, ∃ c ∈ data (.credentials id), c.apiKeyHash = h ∧ c.revokedAt ≠ none

theorem Extends.mem {before after : List Credential} (h : Extends before after) (hc : c ∈ before)
    (hrevoked : c.revokedAt ≠ none) : c ∈ after := by
  rcases h with rfl | ⟨t, c', rfl⟩
  · exact hc
  · have hsame : c.revoke t = c := if_neg hrevoked
    exact mem_append_left _ (hsame ▸ mem_map_of_mem hc)

theorem Superseded.extend {h : String} (hold : Superseded h data) (hkept : Kept data')
    (hextends : ∀ id, Extends (data (.credentials id)) (data' (.credentials id))) : Superseded h data' := by
  obtain ⟨-, id, c, hc, hhash, hrevoked⟩ := hold
  exact ⟨hkept, id, c, (hextends id).mem hc hrevoked, hhash, hrevoked⟩

/-- **Nobody finds a key that is revoked.** -/
theorem Superseded.look {h : String} (hold : Superseded h data) :
    (Inquiry.findCredentialByAPIKeyHash h).look data = .credential none := by
  obtain ⟨hkept, id, c, hc, rfl, hrevoked⟩ := hold
  have hnone : (data (.credentials id)).find? (fun c' => c'.apiKeyHash = c.apiKeyHash &&
      c'.revokedAt = none) = none := by
    rw [find?_eq_none]
    intro c' hc' hfound
    simp only [Bool.and_eq_true, decide_eq_true_eq] at hfound
    obtain rfl : c' = c := inj_on_of_nodup_map (hkept.distinct id) hc' hc hfound.1
    exact hrevoked hfound.2
  simp [Inquiry.look, hkept.keys id c hc, hnone]

/-- The key is found. -/
def FindsKey (h : String) (request : Request Op Inquiry Rows TxResult) (answer : Answer Rows TxResult Int) : Prop :=
  request = .query (.findCredentialByAPIKeyHash h) ∧ ∃ x, answer = .reply (some (.credential (some x)))

/-- `AuthenticateAPIKey` accepts nobody unless the key is found. -/
theorem authenticate_unless (E : Env) (apiKey : String) :
    (authenticateAPIKey E apiKey).Unless (FindsKey (E.hashAPIKey apiKey)) (fun r => ∀ x, r ≠ .ok x) := by
  unfold authenticateAPIKey
  split
  · exact unless_pure (by rintro x ⟨⟩)
  refine unless_perform fun answer => ?_
  split
  next x => exact .inl ⟨rfl, _, rfl⟩
  · exact .inr (unless_pure (by rintro x ⟨⟩))

/-- A call of `AuthenticateAPIKey` with the key has accepted nobody. -/
def Rejects (E : Env) (h : String) (call : Call) (result : Except AppError Outcome) : Prop :=
  ∀ apiKey, call = .authenticateAPIKey apiKey → E.hashAPIKey apiKey = h → ∀ app secret,
    result ≠ .ok (.authenticated app secret)

theorem Call.unless_findsKey (E : Env) (h : String) (call : Call) :
    (call.program E).Unless (FindsKey h) (Rejects E h call) := by
  by_cases hcall : ∃ apiKey, call = .authenticateAPIKey apiKey ∧ E.hashAPIKey apiKey = h
  · obtain ⟨apiKey, rfl, rfl⟩ := hcall
    refine (authenticate_unless E apiKey).bind fun r hr => unless_pure fun _ _ _ app secret => ?_
    cases r with
    | error => simp [Except.map]
    | ok x => exact absurd rfl (hr x)
  · exact unless_of_forall (fun _ apiKey heq hhash => absurd ⟨apiKey, heq, hhash⟩ hcall) _

/-! ## Runs -/

/-- Transactions are those of the store. -/
def Acts (request : Request Op Inquiry Rows TxResult) : Prop :=
  ∀ body, request = .transaction body → ∃ a : Action, body = a.body

theorem Call.acts (E : Env) (call : Call) : (call.program E).Performs (fun _ _ => True) Acts fun _ => True := by
  refine call.follows.performs (fun p request hallows body heq => ?_) fun _ _ _ => trivial
  subst heq
  obtain ⟨-, a, -, hbody, -⟩ := hallows
  exact ⟨a, hbody⟩

/-- **A request keeps the invariant**, and only extends the credentials of an application. -/
theorem Acts.kept {request : Request Op Inquiry Rows TxResult} (h : Acts request) (c : Choice Int)
    (hkept : Kept data) : Kept (tables.atomic.next data (request, c)) ∧
      ∀ id, Extends (data (.credentials id)) (tables.atomic.next data (request, c) (.credentials id)) := by
  have hsame : Kept data ∧ ∀ id, Extends (data (.credentials id)) (data (.credentials id)) := ⟨hkept, fun _ => .inl rfl⟩
  cases request with
  | query | ask => exact hsame
  | transaction body =>
    obtain ⟨a, rfl⟩ := h body rfl
    have hdone : Kept (tables.atomically a.body data).2 ∧
        ∀ id, Extends (data (.credentials id)) ((tables.atomically a.body data).2 (.credentials id)) := by
      rcases a.effect data with ⟨e, heffect⟩ | ⟨result, data', heffect, hperformed⟩
      · rw [heffect]
        exact hsame
      · rw [heffect]
        exact hperformed.kept hkept
    obtain ⟨t, fate⟩ := c
    cases fate with
    | refused => exact hsame
    | answered | lost => exact hdone

/-- A run, and the run of the same calls with atomic transactions. -/
structure Orderly (P : AppPool)
    (Q : AtomicPool Call Region.Value Op Inquiry Rows Int TxResult (Except AppError Outcome)) : Prop where
  refined : Refined tables P Q
  lawful : Pool.Lawful (fun _ _ _ => True) (fun _ => Acts) Q.calls
  kept : Kept Q.shared

section Runs

variable {E : Env} {patience : Nat} {P : AppPool}
  {Q : AtomicPool Call Region.Value Op Inquiry Rows Int TxResult (Except AppError Outcome)}

variable (E patience) in
/-- A turn extends the credentials of an application or leaves them. -/
theorem Orderly.next (h : Orderly P Q) (t : AppTurn) :
    ∃ Q', Orderly ((concurrentCalls tables patience (Call.program E)).next P t) Q' ∧
      ∀ id, Extends (P.shared.committed (.credentials id))
        (((concurrentCalls tables patience (Call.program E)).next P t).shared.committed (.credentials id)) := by
  have hsame : Kept Q.shared ∧ ∀ id, Extends (Q.shared (.credentials id)) (Q.shared (.credentials id)) :=
    ⟨h.kept, fun _ => .inl rfl⟩
  obtain ⟨Q', hrefined, hlawful, hkept, hextends⟩ :
      ∃ Q', Refined tables ((concurrentCalls tables patience (Call.program E)).next P t) Q' ∧
        Pool.Lawful (fun _ _ _ => True) (fun _ => Acts) Q'.calls ∧
        Kept Q'.shared ∧ ∀ id, Extends (Q.shared (.credentials id)) (Q'.shared (.credentials id)) := by
    rcases h.refined.next (Call.program E) patience t fun call _ => call.safe with ⟨-, hrefined⟩ | ⟨u, -, hrefined⟩
    · exact ⟨Q, hrefined, h.lawful, hsame⟩
    refine ⟨_, hrefined, ?_⟩
    cases u with
    | outside e => exact e.elim
    | start call => exact ⟨h.lawful.start (call.acts E), hsame⟩
    | step n c =>
      rcases Pool.next_step_cases tables.atomic (Call.program E) Prod.mk Empty.elim Q n c with
        ⟨hnext, -⟩ | ⟨call, request, k, hcall, hnext, -⟩
      · rw [hnext]
        exact ⟨h.lawful, hsame⟩
      · rw [hnext]
        exact ⟨h.lawful.step hcall trivial, (h.lawful n _ hcall).1.kept c h.kept⟩
  rw [h.refined.shared, hrefined.shared] at hextends
  exact ⟨Q', ⟨hrefined, hlawful, hkept⟩, hextends⟩

variable (E patience) in
theorem exists_orderly (hdata : Kept data) (ts : List AppTurn) : ∃ Q, Orderly (appsAfter E patience data ts) Q := by
  induction ts using reverseRecOn with
  | nil => exact ⟨⟨data, []⟩, refined_of data, by rintro n x ⟨⟩, hdata⟩
  | append_singleton ts t ih =>
    obtain ⟨Q, h⟩ := ih
    obtain ⟨Q', h', -⟩ := h.next E patience t
    exact ⟨Q', appsAfter_concat ▸ h'⟩

/-- Nobody has found the key since, and it is still the key of a credential that is revoked. -/
def Hidden (h : String) (start : Tables) (is : List (Request Op Inquiry Rows TxResult × Choice Int))
    (data : Tables) : Prop :=
  tables.atomic.Steps (fun data i _ => ∀ st c, i = (st, c) → ¬ FindsKey h st (tables.atomic.out data i)) start is ∧
    data = tables.atomic.run start is ∧ Superseded h data

theorem Hidden.step {h : String} {start : Tables} {is : List (Request Op Inquiry Rows TxResult × Choice Int)}
    (hidden : Hidden h start is data) {request : Request Op Inquiry Rows TxResult}
    (hacts : Acts request) (c : Choice Int) :
    Hidden h start (is ++ [(request, c)]) (tables.atomic.next data (request, c)) := by
  obtain ⟨hsteps, rfl, hold⟩ := hidden
  obtain ⟨hkept, hextends⟩ := hacts.kept c hold.1
  refine ⟨Mealy.steps_concat.mpr ⟨hsteps, ?_⟩, (Mealy.run_concat ..).symm, hold.extend hkept hextends⟩
  rintro st c' ⟨⟩ ⟨rfl, x, hfound⟩
  have hreply : .reply (if c.fate = .answered then
      some ((Inquiry.findCredentialByAPIKeyHash h).look (tables.atomic.run start is)) else none) =
        (.reply (some (.credential (some x))) : Answer Rows TxResult Int) := hfound
  rw [hold.look] at hreply
  split at hreply
  · cases hreply
  · cases hreply

variable (E patience) in
/-- **The key of a revoked credential is rejected** by every call that starts afterwards. -/
theorem Orderly.rejects (h : Orderly P Q) {id : String} (hc : c ∈ P.shared.committed (.credentials id))
    (hrevoked : c.revokedAt ≠ none) (ts : List AppTurn) {n : Nat} (hn : P.calls.length ≤ n) {call : Call}
    {result : Except AppError Outcome}
    (hcall : ((concurrentCalls tables patience (Call.program E)).run P ts).calls[n]? = some (call, .done result)) :
    Rejects E c.apiKeyHash call result := by
  obtain ⟨us, -, hrefined⟩ := h.refined.run (Call.program E) patience ts fun call _ => call.safe
  have hidden : Hidden c.apiKeyHash Q.shared [] Q.shared :=
    ⟨trivial, rfl, h.kept, id, c, h.refined.shared ▸ hc, rfl, hrevoked⟩
  have hrun : Pool.Lawful (fun _ _ _ => True) (fun _ => Acts) ((atomicCalls tables (Call.program E)).run Q us).calls ∧
      Hidden c.apiKeyHash Q.shared ([] ++ Pool.inputs tables.atomic (Call.program E) Prod.mk Empty.elim Q us)
        ((atomicCalls tables (Call.program E)).run Q us).shared :=
    Pool.performs_run [] us (fun is data n request c' _ hacts hidden => ⟨trivial, hidden.step hacts c'⟩)
      (fun is data e => e.elim) (fun _ call _ => call.acts E) h.lawful hidden
  -- the calls from `n` on have not started yet
  refine Pool.unless_run us (fun call _ => call.unless_findsKey E c.apiKeyHash) hrun.2.1 (fun m x hm hx => ?_) n _ hn
    (hrefined.returned hcall)
  have hlength : Q.calls.length = P.calls.length := by simpa using congrArg List.length h.refined.labels
  have hlt := (List.getElem?_eq_some_iff.mp hx).1
  omega

end Runs

/-! ## One valid key -/

/-- **Exactly one key of an application is valid**, the newest. -/
structure OneValidKey (E : Env) (patience : Nat) (data : Tables) (ts : List AppTurn) : Prop where
  /-- At every moment an application has one credential that is not revoked. -/
  exactlyOne : ∀ i id row, dataAt E patience data ts i (.app id) = some row →
    (dataAt E patience data ts i (.credentials id)).countP (fun c => c.revokedAt = none) = 1
  /-- The versions of the credentials count from one on, and the last one is the credential that is not revoked. -/
  versions : ∀ i id (j : Nat) c, (dataAt E patience data ts i (.credentials id))[j]? = some c →
    c.version = j + 1 ∧ (c.revokedAt = none ↔ j + 1 = (dataAt E patience data ts i (.credentials id)).length)
  /-- A turn commits no credential, or the next one of an application and revokes the others. -/
  turns : ∀ i id, Extends (dataAt E patience data ts i (.credentials id))
    (dataAt E patience data ts (i + 1) (.credentials id))
  /-- Who starts to authenticate after a moment with a key that was not the newest one then is rejected. -/
  rejected : ∀ i id c apiKey, c ∈ (dataAt E patience data ts i (.credentials id)).dropLast →
    E.hashAPIKey apiKey = c.apiKeyHash → ∀ n result, (appsAfter E patience data (ts.take i)).calls.length ≤ n →
    (appsAfter E patience data ts).calls[n]? = some (.authenticateAPIKey apiKey, .done result) →
    ∀ app secret, result ≠ .ok (.authenticated app secret)

theorem Line.revoked_iff (h : Line rows) {j : Nat} (hj : rows[j]? = some c) :
    c.version = j + 1 ∧ (c.revokedAt = none ↔ j + 1 = rows.length) := by
  obtain ⟨hlt, hget⟩ := List.getElem?_eq_some_iff.mp hj
  constructor
  · have hversion : (rows.map version)[j]? = some c.version := by simp [hj]
    rw [h.versions, getElem?_range' hlt] at hversion
    have := Option.some.inj hversion
    omega
  · obtain ⟨old, current, rfl⟩ : ∃ old current, rows = old ++ [current] :=
      ⟨_, _, (dropLast_append_getLast (ne_nil_of_length_pos (by omega))).symm⟩
    obtain ⟨hcurrent, hold⟩ := h.newest old current rfl
    rw [length_append, length_singleton] at hlt ⊢
    by_cases hlast : j = old.length
    · subst hlast
      obtain rfl : current = c := by simpa using hj
      exact iff_of_true hcurrent rfl
    · rw [getElem?_append_left (by omega)] at hj
      exact iff_of_false (hold c (mem_of_getElem? hj)) (by omega)

theorem Line.countP (h : Line rows) (hrows : rows ≠ []) : rows.countP (fun c => c.revokedAt = none) = 1 := by
  obtain ⟨hcurrent, hold⟩ := h.newest _ _ (dropLast_append_getLast hrows).symm
  rw [← dropLast_append_getLast hrows, countP_append, countP_eq_zero.mpr (by simpa using hold)]
  simp [hcurrent]

/-- **A rotation leaves exactly one valid key**, in every run of any calls. -/
theorem rotation_leaves_one_valid_key (E : Env) (patience : Nat) (data : Tables) (hdata : Kept data)
    (ts : List AppTurn) :
    OneValidKey E patience data ts := by
  have hkept : ∀ i, Kept (dataAt E patience data ts i) := by
    intro i
    obtain ⟨Q, h⟩ := exists_orderly E patience hdata (ts.take i)
    have hshared : Q.shared = dataAt E patience data ts i := h.refined.shared
    exact hshared ▸ h.kept
  refine ⟨fun i id row hrow => ?_, fun i id j c hj => ((hkept i).line id).revoked_iff hj, fun i id => ?_,
    fun i id c apiKey hc hhash n result hn hcall => ?_⟩
  · refine ((hkept i).line id).countP fun hnone => ?_
    rw [((hkept i).present id).mpr hnone] at hrow
    cases hrow
  · cases hi : ts[i]? with
    | none =>
      have hlength : ts.length ≤ i := getElem?_eq_none_iff.mp hi
      rw [dataAt, dataAt, take_of_length_le hlength, take_of_length_le (by omega)]
      exact .inl rfl
    | some t =>
      obtain ⟨Q, h⟩ := exists_orderly E patience hdata (ts.take i)
      obtain ⟨-, -, hextends⟩ := h.next E patience t
      have htake : ts.take i ++ [t] = ts.take (i + 1) := by
        rw [take_add_one, hi]
        rfl
      rw [← appsAfter_concat, htake] at hextends
      exact hextends id
  · obtain ⟨Q, h⟩ := exists_orderly E patience hdata (ts.take i)
    have hmem : c ∈ dataAt E patience data ts i (.credentials id) := dropLast_subset _ hc
    have hrevoked : c.revokedAt ≠ none := by
      have hrows := ne_nil_of_mem hmem
      exact (((hkept i).line id).newest _ _ (dropLast_append_getLast hrows).symm).2 c hc
    have hrun : appsAfter E patience data ts =
        (concurrentCalls tables patience (Call.program E)).run (appsAfter E patience data (ts.take i)) (ts.drop i) := by
      rw [appsAfter, appsAfter, ← Mealy.run_append, take_append_drop]
    rw [hrun] at hcall
    exact h.rejects E patience hmem hrevoked (ts.drop i) hn hcall apiKey rfl hhash

theorem kept_sampleTables : Kept sampleTables := by
  refine ⟨fun id => ?_, fun id => ?_, fun id c hc => ?_, fun id => ?_⟩
  · change Line (if id = "app_a" then _ else [])
    split
    · refine ⟨rfl, fun old current heq => ?_⟩
      cases old with
      | nil => exact ⟨by cases heq; rfl, by rintro c ⟨⟩⟩
      | cons => simp at heq
    · exact line_nil
  · change (if id = "app_a" then some sampleApp else none) = none ↔ (if id = "app_a" then _ else []) = []
    split <;> simp
  · change c ∈ if id = "app_a" then _ else [] at hc
    split at hc
    next hid =>
      obtain rfl := mem_singleton.mp hc
      rw [hid]
      rfl
    · cases hc
  · change ((if id = "app_a" then _ else []).map apiKeyHash).Nodup
    split <;> simp

/-- Two rotations at the same time, the second waits for the first, and then somebody comes with the first key. -/
def sampleRotations : List AppTurn :=
  let steps (n count : Nat) (t : Int) : List AppTurn := List.replicate count (.step n ⟨t, .answered⟩)
  [.start (.rotateSecret "app_a" "key_2" "secret_2"), .start (.rotateSecret "app_a" "key_3" "secret_3")] ++
    steps 0 3 5 ++ steps 1 3 6 ++ steps 0 8 7 ++ steps 1 9 8 ++ [.start (.authenticateAPIKey "key_1")] ++ steps 2 2 9

theorem rotation_leaves_one_valid_key_sample :
    dataAt sampleEnv 2 sampleTables sampleRotations sampleRotations.length (.credentials "app_a") =
        [⟨"key_1", "secret_1", 0, 0, 1, some 5⟩, ⟨"key_2", "secret_2", 0, 5, 2, some 6⟩,
          ⟨"key_3", "secret_3", 0, 6, 3, none⟩] ∧
      OneValidKey sampleEnv 2 sampleTables sampleRotations :=
  ⟨by decide +kernel, rotation_leaves_one_valid_key _ _ _ kept_sampleTables _⟩

end RelayHub.Apps
