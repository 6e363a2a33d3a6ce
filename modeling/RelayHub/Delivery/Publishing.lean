import Mathlib.Data.Prod.Lex
import Mathlib.Data.String.Basic
import RelayHub.Delivery.Dispatcher

/-! # RelayHub deliveries — the outbox publishes, boundedly and without loss

An attempt is counted in the outbox row before each call of the broker, under a claim token. A token is used
for one claim, and a replay drops it. So the holder of the token has the message of the row's present
generation, each call has a publish start of its own, and only a call that the broker acknowledged marks the
row as dispatched.

The invariants of `dispatchers` come in groups: the rows (`RowsInv`), the tokens (`TokensInv`), the messages in
the rounds and at the broker (`MessagesInv`), the counters (`CountsInv`), how rows end (`EndsInv`), and what the
rows of earlier states say about the present one (`HistoryInv`). -/

namespace RelayHub.Delivery

open List Table OutboxRow

/-! ## Rows -/

/-- The row has the same message as before, or a replay gave it a later one. -/
def Continues (o o' : OutboxRow) : Prop :=
  (o'.id = o.id ∧ o'.deliveryId = o.deliveryId ∧ o'.generation = o.generation ∧
    o'.publication = o.publication) ∨ ReplaysTo o o'

theorem Continues.refl (o : OutboxRow) : Continues o o := .inl ⟨rfl, rfl, rfl, rfl⟩

variable {o o' : OutboxRow}

theorem Continues.id (h : Continues o o') : o'.id = o.id := by
  rcases h with ⟨hid, -⟩ | h
  · exact hid
  · exact h.id

theorem Continues.deliveryId (h : Continues o o') : o'.deliveryId = o.deliveryId := by
  rcases h with ⟨-, hid, -⟩ | h
  · exact hid
  · exact h.deliveryId

/-- The rows of the outbox before and after a step. -/
inductive RowsStep (outbox : List OutboxRow) : List OutboxRow → Prop where
  | insert (sha256 : String → String) (n : NewDelivery)
      (hfresh : ∀ o ∈ outbox, o.id ≠ (n.outboxRow sha256).id ∧ o.deliveryId ≠ n.deliveryId) :
      RowsStep outbox (outbox ++ [n.outboxRow sha256])
  | go {outbox' : List OutboxRow} (h : List.Forall₂ Continues outbox outbox') : RowsStep outbox outbox'

variable {maxAttempts : Nat} {s s' : DispatchState} {op : DispatchOp} {r : Round} {m : OutboxRow}
  {outbox history : List OutboxRow} {used : List String}

theorem DispatchCase.rows (h : DispatchCase maxAttempts s op s') : RowsStep s.db.outbox s'.db.outbox := by
  have hsame : s'.db.outbox = s.db.outbox → RowsStep s.db.outbox s'.db.outbox := by
    intro heq
    rw [heq]
    exact .go (forall₂_same.mpr fun o _ => .refl o)
  have hupdate : ∀ {p : OutboxRow → Bool} {f : OutboxRow → OutboxRow},
      s'.db.outbox = updateWhere p f s.db.outbox → (∀ o, Continues o (f o)) →
      RowsStep s.db.outbox s'.db.outbox := by
    intro p f heq hf
    rw [heq]
    exact .go (forall₂_updateWhere .refl hf)
  cases h with
  | quiet houtbox | publish r m rest attempt acked _ _ _ houtbox | skip r _ houtbox => exact hsame houtbox
  | store houtbox =>
    generalize s'.db.outbox = outbox' at houtbox
    cases houtbox with
    | insert sha256 n hfresh => exact .insert sha256 n hfresh
    | replay hrows =>
      refine .go (hrows.imp fun o o' hrow => ?_)
      rcases hrow with rfl | hrow
      · exact .refl _
      · exact .inr hrow
  | claim chosen _ houtbox | start r m rest o _ _ _ _ _ houtbox =>
    exact hupdate houtbox fun o => .inl ⟨rfl, rfl, rfl, rfl⟩
  | release r m rest o f _ _ _ hf _ _ houtbox =>
    exact hupdate houtbox fun o => .inl ⟨hf.id o, hf.deliveryId o, hf.generation o, hf.publication o⟩

/-- Ids are unique, and the message of a row is of its delivery and its generation. -/
structure RowsInv (outbox : List OutboxRow) : Prop where
  ids : (outbox.map (·.id)).Nodup
  deliveryIds : (outbox.map (·.deliveryId)).Nodup
  key : ∀ o ∈ outbox, o.publication.key = (o.deliveryId, o.generation)

theorem RowsInv.step {outbox' : List OutboxRow} (h : RowsInv outbox) (hstep : RowsStep outbox outbox') :
    RowsInv outbox' := by
  cases hstep with
  | insert sha256 n hfresh =>
    exact ⟨nodup_keys_concat h.ids fun o ho => (hfresh o ho).1,
      nodup_keys_concat h.deliveryIds fun o ho => (hfresh o ho).2, forall_mem_concat h.key rfl⟩
  | go hrows =>
    refine ⟨?_, ?_, fun o' ho' => ?_⟩
    · rw [map_eq_of_forall₂ hrows (·.id) fun _ _ hrow => hrow.id]
      exact h.ids
    · rw [map_eq_of_forall₂ hrows (·.deliveryId) fun _ _ hrow => hrow.deliveryId]
      exact h.deliveryIds
    · obtain ⟨o, ho, hrow⟩ := exists_of_forall₂_right hrows ho'
      have hkey := h.key o ho
      rcases hrow with ⟨-, hid, hgeneration, hpublication⟩ | hreplay
      · rw [hpublication, hid, hgeneration]
        exact hkey
      · have hdelivery : o.payload.deliveryId = o.deliveryId := congrArg Prod.fst hkey
        simp only [BrokerPublication.key, publication, hreplay.payload, hreplay.deliveryId, hdelivery]

/-- What a row may become: its generation grows, and has one message. -/
structure Becomes (o o' : OutboxRow) : Prop where
  id : o'.id = o.id
  deliveryId : o'.deliveryId = o.deliveryId
  generation : o.generation ≤ o'.generation
  current : o'.generation = o.generation → o'.publication = o.publication

theorem Becomes.refl (o : OutboxRow) : Becomes o o := ⟨rfl, rfl, le_rfl, fun _ => rfl⟩

theorem Becomes.trans {o₁ o₂ : OutboxRow} (h : Becomes o o₁) (h' : Becomes o₁ o₂) : Becomes o o₂ := by
  refine ⟨h'.id.trans h.id, h'.deliveryId.trans h.deliveryId, h.generation.trans h'.generation, fun heq => ?_⟩
  have hsame : o₁.generation = o.generation := le_antisymm (h'.generation.trans heq.le) h.generation
  rw [h'.current (heq.trans hsame.symm), h.current hsame]

theorem RowsStep.forth {outbox' : List OutboxRow} (hstep : RowsStep outbox outbox') (ho : o ∈ outbox) :
    ∃ o' ∈ outbox', Becomes o o' := by
  cases hstep with
  | insert => exact ⟨o, mem_append_left _ ho, .refl o⟩
  | go hrows =>
    obtain ⟨o', ho', hrow⟩ := exists_of_forall₂_left hrows ho
    refine ⟨o', ho', ?_⟩
    rcases hrow with ⟨hid, hdelivery, hgeneration, hpublication⟩ | hreplay
    · exact ⟨hid, hdelivery, hgeneration.ge, fun _ => hpublication⟩
    · exact ⟨hreplay.id, hreplay.deliveryId, hreplay.generation.le, fun heq => absurd heq hreplay.generation.ne'⟩

/-! ## Tokens

Each token is used for one claim. `used` are the tokens of the claims so far. -/

def DispatchOp.tokens : DispatchOp → List String
  | .claim _ _ token _ => [token]
  | _ => []

/-- A round after a step is a round from before it, with no new messages, or it is a claim's. -/
theorem DispatchCase.round (h : DispatchCase maxAttempts s op s') {r' : Round} (hr' : r' ∈ s'.rounds) :
    (∃ r ∈ s.rounds, r'.token = r.token ∧ r'.messages ⊆ r.messages) ∨
      ∃ chosen : List OutboxRow, r'.token ∈ op.tokens ∧ (∀ o ∈ chosen, o ∈ s.db.outbox) ∧
        r'.messages = chosen.map (claimed r'.now r'.token) ∧
        s'.db.outbox = updateWhere (fun o => (chosen.map (·.id)).contains o.id)
          (claimed r'.now r'.token) s.db.outbox := by
  have hmoved : ∀ {r r₁ : Round}, r ∈ s.rounds → s'.rounds = r₁ :: (s.endRound r.dispatcher).rounds →
      r₁.token = r.token → r₁.messages ⊆ r.messages →
      ∃ r ∈ s.rounds, r'.token = r.token ∧ r'.messages ⊆ r.messages := by
    intro r r₁ hr hrounds htoken hmessages
    rw [hrounds] at hr'
    rcases mem_cons.mp hr' with rfl | hr'
    · exact ⟨r, hr, htoken, hmessages⟩
    · exact ⟨r', mem_of_mem_filter hr', rfl, .refl _⟩
  cases h with
  | quiet _ hrounds => exact .inl ⟨r', hrounds.subset hr', rfl, .refl _⟩
  | store _ hrounds => exact .inl ⟨r', hrounds ▸ hr', rfl, .refl _⟩
  | claim chosen hchosen houtbox hrounds =>
    rw [hrounds] at hr'
    rcases mem_cons.mp hr' with rfl | hr'
    · exact .inr ⟨chosen, mem_cons_self, hchosen, rfl, houtbox⟩
    · exact .inl ⟨r', mem_of_mem_filter hr', rfl, .refl _⟩
  | start r m rest o hr _ _ _ _ _ hrounds | publish r m rest attempt acked hr _ _ _ hrounds =>
    exact .inl (hmoved hr hrounds rfl (.refl _))
  | release r m rest o f hr _ _ _ _ _ _ hrounds | skip r hr _ hrounds =>
    exact .inl (hmoved hr hrounds rfl (tail_sublist _).subset)

structure TokensInv (used : List String) (s : DispatchState) : Prop where
  rows : ∀ o ∈ s.db.outbox, ∀ token, o.token = some token → token ∈ used
  rounds : ∀ r ∈ s.rounds, r.token ∈ used
  messages : ∀ r ∈ s.rounds, ∀ m ∈ r.messages, m.token = some r.token
  distinct : (s.rounds.map (·.token)).Nodup

theorem TokensInv.other (h : TokensInv used s) {x : Round} (hr : r ∈ s.rounds)
    (hx : x ∈ (s.endRound r.dispatcher).rounds) : x ∈ s.rounds ∧ x.token ≠ r.token := by
  obtain ⟨hmem, hne⟩ := mem_filter.mp hx
  refine ⟨hmem, fun heq => ?_⟩
  obtain rfl : x = r := eq_of_key_eq h.distinct hmem hr heq
  exact of_decide_eq_true hne rfl

/-! ## Messages -/

/-- The messages that dispatchers have, and those that they sent. -/
def DispatchState.messages (s : DispatchState) : List BrokerPublication :=
  s.rounds.flatMap (fun r => r.messages.map publication) ++ s.calls.map (·.publication)

theorem mem_messages_of_round (hr : r ∈ s.rounds) (hm : m ∈ r.messages) : m.publication ∈ s.messages :=
  mem_append_left _ (mem_flatMap.mpr ⟨r, hr, mem_map_of_mem hm⟩)

section

variable (h : DispatchCase maxAttempts s op s')

include h

/-- The log of the calls grows by a message of a round. -/
theorem DispatchCase.calls_cases : s'.calls = s.calls ∨
    ∃ r ∈ s.rounds, ∃ m ∈ r.messages, ∃ acked, s'.calls = s.calls ++ [⟨m.publication, acked⟩] := by
  cases h with
  | quiet _ _ hcalls | store _ _ hcalls | claim _ _ _ _ hcalls | start _ _ _ _ _ _ _ _ _ _ _ hcalls
  | release _ _ _ _ _ _ _ _ _ _ _ _ _ hcalls | skip _ _ _ _ hcalls => exact .inl hcalls
  | publish r m rest attempt acked hr _ hmessages _ _ hcalls =>
    exact .inr ⟨r, hr, m, hmessages ▸ mem_cons_self, acked, hcalls⟩

theorem DispatchCase.calls_mono : s.calls ⊆ s'.calls := by
  rcases h.calls_cases with hcalls | ⟨r, -, m, -, acked, hcalls⟩
  · exact hcalls ▸ .refl _
  · exact hcalls ▸ subset_append_left _ _

/-- The log of the starts grows by the message of a row that is held and has attempts left. -/
theorem DispatchCase.starts_cases : s'.starts = s.starts ∨
    ∃ r ∈ s.rounds, ∃ m ∈ r.messages, ∃ o, Held s.db m o ∧ o.attempts < maxAttempts ∧
      s'.starts = s.starts ++ [m.publication.key] ∧ begun (o.attempts + 1) r.now o ∈ s'.db.outbox := by
  cases h with
  | quiet _ _ _ hstarts | store _ _ _ hstarts | claim _ _ _ _ _ hstarts | publish _ _ _ _ _ _ _ _ _ _ _ hstarts
  | release _ _ _ _ _ _ _ _ _ _ _ _ _ _ hstarts | skip _ _ _ _ _ hstarts => exact .inl hstarts
  | start r m rest o hr _ hms hheld hlt houtbox _ _ hstarts =>
    refine .inr ⟨r, hr, m, hms ▸ mem_cons_self, o, hheld, hlt, hstarts, ?_⟩
    rw [houtbox]
    exact mem_updateWhere.mpr ⟨o, hheld.stored, by simp⟩

/-- A message is from before the step, or it is the message of a row. -/
theorem DispatchCase.messages {p : BrokerPublication} (hp : p ∈ s'.messages) :
    p ∈ s.messages ∨ ∃ o ∈ s.db.outbox, p = o.publication := by
  rcases mem_append.mp hp with hp | hp
  · obtain ⟨r', hr', hp⟩ := mem_flatMap.mp hp
    obtain ⟨m, hm, rfl⟩ := mem_map.mp hp
    rcases h.round hr' with ⟨r, hr, -, hmessages⟩ | ⟨chosen, -, hchosen, hmessages, -⟩
    · exact .inl (mem_messages_of_round hr (hmessages hm))
    · rw [hmessages] at hm
      obtain ⟨o, ho, rfl⟩ := mem_map.mp hm
      exact .inr ⟨o, hchosen o ho, rfl⟩
  · obtain ⟨c, hc, rfl⟩ := mem_map.mp hp
    have hold : c ∈ s.calls → c.publication ∈ s.messages := fun hc =>
      mem_append_right _ (mem_map_of_mem hc)
    rcases h.calls_cases with hcalls | ⟨r, hr, m, hm, acked, hcalls⟩
    · exact .inl (hold (hcalls ▸ hc))
    rcases mem_append.mp (hcalls ▸ hc) with hc | hc
    · exact .inl (hold hc)
    · rw [mem_singleton.mp hc]
      exact .inl (mem_messages_of_round hr hm)

end

/-- The row that a message was of: it still has the message or a later generation. -/
structure MessageOf (p : BrokerPublication) (o : OutboxRow) : Prop where
  deliveryId : o.deliveryId = p.payload.deliveryId
  generation : p.payload.generation ≤ o.generation
  current : o.generation = p.payload.generation → o.publication = p

structure MessagesInv (s : DispatchState) : Prop where
  /-- The holder of a row's token has the message of the row. -/
  held : ∀ r ∈ s.rounds, ∀ m ∈ r.messages, ∀ o ∈ s.db.outbox, o.id = m.id → o.token = some r.token →
    o.publication = m.publication
  known : ∀ p ∈ s.messages, ∃ o ∈ s.db.outbox, MessageOf p o

/-! ## Counters and ends -/

/-- The round has counted a start of `key` and has not called the broker for it yet. -/
def Round.waits (key : String × Nat) (r : Round) : Bool :=
  match r.phase, r.messages with
  | .started _, m :: _ => decide (m.publication.key = key)
  | _, _ => false

theorem Round.waits_next (key : String × Nat) (r : Round) : r.next.waits key = false := rfl

theorem Round.waits_started {key : String × Nat} {attempt : Nat} {rest : List OutboxRow}
    (hphase : r.phase = .started attempt) (hmessages : r.messages = m :: rest) :
    r.waits key = decide (m.publication.key = key) := by
  rw [Round.waits, hphase, hmessages]

structure CountsInv (maxAttempts : Nat) (s : DispatchState) : Prop where
  known : ∀ k ∈ s.starts, ∃ o ∈ s.db.outbox, o.deliveryId = k.1 ∧ k.2 ≤ o.generation
  /-- A row counts the publish starts of its generation. -/
  attempts : ∀ o ∈ s.db.outbox, o.attempts = s.starts.count (o.deliveryId, o.generation)
  bounded : ∀ k, s.starts.count k ≤ maxAttempts
  /-- Each call has a start of its own. -/
  calls : ∀ k, s.calls.countP (fun c => decide (c.publication.key = k)) + s.rounds.countP (Round.waits k)
    ≤ s.starts.count k

structure EndsInv (maxAttempts : Nat) (s : DispatchState) : Prop where
  acknowledged : ∀ r ∈ s.rounds, ∀ m rest, r.phase = .acknowledged → r.messages = m :: rest →
    ⟨m.publication, true⟩ ∈ s.calls
  /-- A round that still holds its row remembers how often the row was started. -/
  counted : ∀ r ∈ s.rounds, ∀ m rest attempt, r.phase = .started attempt ∨ r.phase = .refused attempt →
    r.messages = m :: rest → ∀ o ∈ s.db.outbox, o.id = m.id → o.token = some r.token →
    s.starts.count m.publication.key = attempt
  dispatched : ∀ o ∈ s.db.outbox, o.dispatchedAt.isSome → ⟨o.publication, true⟩ ∈ s.calls
  failed : ∀ o ∈ s.db.outbox, o.failedAt.isSome → maxAttempts ≤ o.attempts

theorem endRound_waits (hr : r ∈ s.rounds) (k : String × Nat) :
    (s.endRound r.dispatcher).rounds.countP (Round.waits k) + (if r.waits k then 1 else 0)
      ≤ s.rounds.countP (Round.waits k) :=
  countP_filter_add_le hr (by simp)

theorem mem_front {r' : Round} {i : Nat} (hrounds : s'.rounds = r :: (s.endRound i).rounds) (hr' : r' ∈ s'.rounds) :
    r' = r ∨ r' ∈ s.rounds := by
  rw [hrounds] at hr'
  exact (mem_cons.mp hr').imp_right mem_of_mem_filter

structure PublishInv (maxAttempts : Nat) (used : List String) (s : DispatchState) : Prop where
  rows : RowsInv s.db.outbox
  tokens : TokensInv used s
  messages : MessagesInv s
  counts : CountsInv maxAttempts s
  ends : EndsInv maxAttempts s

namespace PublishInv

variable (h : PublishInv maxAttempts used s)

include h

theorem eq_publication {p : BrokerPublication} (hp : p ∈ s.messages) (ho : o ∈ s.db.outbox)
    (hkey : p.key = (o.deliveryId, o.generation)) : p = o.publication := by
  obtain ⟨hdelivery, hgeneration⟩ := Prod.mk.inj hkey
  obtain ⟨x, hx, hof⟩ := h.messages.known p hp
  obtain rfl : x = o := eq_of_key_eq h.rows.deliveryIds hx ho (hof.deliveryId.trans hdelivery)
  exact (hof.current hgeneration.symm).symm

/-! ## Where a row comes from -/

theorem mem_update_held (hheld : Held s.db m o) {f : OutboxRow → OutboxRow}
    (ho' : o' ∈ updateWhere (fun x => x.id = o.id) f s.db.outbox) :
    o' = f o ∨ (o' ∈ s.db.outbox ∧ o'.id ≠ o.id) := by
  rcases mem_updateWhere_cases ho' with ⟨x, hx, hid, rfl⟩ | ⟨hold, hid⟩
  · obtain rfl : x = o := eq_of_key_eq h.rows.ids hx hheld.stored (of_decide_eq_true hid)
    exact .inl rfl
  · exact .inr ⟨hold, fun heq => hid (decide_eq_true heq)⟩

/-- A publish start is a start of the generation that the row has. -/
theorem start_key (hr : r ∈ s.rounds) (hm : m ∈ r.messages) (hheld : Held s.db m o) :
    o.token = some r.token ∧ m.publication = o.publication ∧ m.publication.key = (o.deliveryId, o.generation) := by
  have htoken : o.token = some r.token := by
    rw [hheld.token, h.tokens.messages r hr m hm]
    rfl
  have hpublication := h.messages.held r hr m hm o hheld.stored hheld.id htoken
  refine ⟨htoken, hpublication.symm, ?_⟩
  rw [← hpublication]
  exact h.rows.key o hheld.stored

/-- A row after a step: it or its generation is new, it was there, or the step ends its claim. -/
inductive RowCase (maxAttempts : Nat) (s : DispatchState) (op : DispatchOp) (s' : DispatchState) (o' : OutboxRow) :
    Prop where
  | fresh (hclaim : o'.claim = none) (hdispatched : o'.dispatchedAt = none) (hfailed : o'.failedAt = none)
      (hattempts : o'.attempts = 0) (hstarts : s'.starts = s.starts)
      (hnew : ∀ x ∈ s.db.outbox, x.deliveryId = o'.deliveryId → x.generation < o'.generation)
  | keeps (o : OutboxRow) (ho : o ∈ s.db.outbox) (hid : o.id = o'.id)
      (hkey : (o'.deliveryId, o'.generation) = (o.deliveryId, o.generation))
      (hpublication : o'.publication = o.publication)
      (htoken : o'.token = o.token ∨ ∃ token ∈ op.tokens, o'.token = some token)
      (hdispatched : o'.dispatchedAt = o.dispatchedAt) (hfailed : o'.failedAt = o.failedAt)
      (hle : o.attempts ≤ o'.attempts)
      (hcount : o'.attempts + s.starts.count (o.deliveryId, o.generation) =
        o.attempts + s'.starts.count (o.deliveryId, o.generation))
  | ends (r : Round) (m : OutboxRow) (rest : List OutboxRow) (o : OutboxRow) (f : OutboxRow → OutboxRow)
      (hr : r ∈ s.rounds) (hmessages : r.messages = m :: rest) (hheld : Held s.db m o) (hf : Releases f)
      (heq : o' = f o)
      (hstarts : s'.starts = s.starts)
      (hdispatched : (∀ x, (f x).dispatchedAt = x.dispatchedAt) ∨ r.phase = .acknowledged)
      (hfailed : (∀ x, (f x).failedAt = x.failedAt) ∨ (r.phase = .claimed ∧ maxAttempts ≤ o.attempts) ∨
        ∃ attempt, r.phase = .refused attempt ∧ maxAttempts ≤ attempt)

variable (hcase : DispatchCase maxAttempts s op s')

include hcase

theorem row (ho' : o' ∈ s'.db.outbox) : RowCase maxAttempts s op s' o' := by
  have hsame : s'.starts = s.starts → o' ∈ s.db.outbox → RowCase maxAttempts s op s' o' := fun hstarts ho =>
    .keeps o' ho rfl rfl rfl (.inl rfl) rfl rfl le_rfl (by rw [hstarts])
  cases hcase with
  | quiet houtbox _ _ hstarts | publish r m rest attempt acked _ _ _ houtbox _ _ hstarts
  | skip r _ houtbox _ _ hstarts => exact hsame hstarts (houtbox ▸ ho')
  | store houtbox _ _ hstarts =>
    generalize s'.db.outbox = outbox' at houtbox ho'
    cases houtbox with
    | insert sha256 n hfresh =>
      rcases mem_append.mp ho' with ho' | ho'
      · exact hsame hstarts ho'
      · rw [mem_singleton.mp ho']
        exact .fresh rfl rfl rfl rfl hstarts fun x hx heq => absurd heq (hfresh x hx).2
    | replay hchange =>
      obtain ⟨o, ho, hrow⟩ := exists_of_forall₂_right hchange ho'
      rcases hrow with rfl | hreplay
      · exact hsame hstarts ho
      · refine .fresh hreplay.claim hreplay.dispatchedAt hreplay.failedAt hreplay.attempts hstarts fun x hx heq => ?_
        obtain rfl : x = o := eq_of_key_eq h.rows.deliveryIds hx ho (heq.trans hreplay.deliveryId)
        exact hreplay.generation
  | @claim i now token skipped _ chosen _ houtbox _ _ hstarts =>
    rw [houtbox] at ho'
    rcases mem_updateWhere_cases ho' with ⟨x, hx, -, rfl⟩ | ⟨hold, -⟩
    · exact .keeps x hx rfl rfl rfl (.inr ⟨token, mem_cons_self, rfl⟩) rfl rfl le_rfl (by rw [hstarts, claimed])
    · exact hsame hstarts hold
  | start r m rest o hr _ hms hheld _ houtbox _ _ hstarts =>
    obtain ⟨-, -, hkey⟩ := h.start_key hr (hms ▸ mem_cons_self) hheld
    rw [houtbox] at ho'
    rcases h.mem_update_held hheld ho' with rfl | ⟨hold, hne⟩
    · refine .keeps o hheld.stored rfl rfl rfl (.inl rfl) rfl rfl (Nat.le_succ _) ?_
      rw [hstarts, hkey, count_append, count_singleton_self]
      exact Nat.add_right_comm _ _ _
    · have hother : o'.deliveryId ≠ o.deliveryId := fun heq =>
        hne (congrArg OutboxRow.id (eq_of_key_eq h.rows.deliveryIds hold hheld.stored heq))
      exact .keeps o' hold rfl rfl rfl (.inl rfl) rfl rfl le_rfl (by simp [hstarts, hkey, hother.symm])
  | release r m rest o f hr hmessages hheld hf hdispatched hfailed houtbox _ _ hstarts =>
    rw [houtbox] at ho'
    rcases h.mem_update_held hheld ho' with rfl | ⟨hold, -⟩
    · exact .ends r m rest o f hr hmessages hheld hf rfl hstarts hdispatched hfailed
    · exact hsame hstarts hold

/-- A row with a claim had it before the step, or the step is its claim. -/
theorem token (ho' : o' ∈ s'.db.outbox) {token : String} (htoken : o'.token = some token) :
    token ∈ op.tokens ∨ ∃ o ∈ s.db.outbox, o.token = some token ∧ o.id = o'.id ∧ o'.publication = o.publication := by
  have hnone : o'.claim ≠ none := by
    intro hclaim
    rw [OutboxRow.token, hclaim] at htoken
    cases htoken
  cases h.row hcase ho' with
  | fresh hclaim => exact absurd hclaim hnone
  | keeps o ho hid _ hpublication hsame =>
    rcases hsame with hsame | ⟨token', hnew, hsame⟩
    · exact .inr ⟨o, ho, hsame ▸ htoken, hid, hpublication⟩
    · exact .inl (Option.some.inj (hsame.symm.trans htoken) ▸ hnew)
  | ends r m rest o f _ _ _ hf heq => exact absurd (heq ▸ hf.claim o) hnone

/-! ## What a step keeps -/

theorem step_known : ∀ k ∈ s'.starts, ∃ o ∈ s'.db.outbox, o.deliveryId = k.1 ∧ k.2 ≤ o.generation := by
  intro k hk
  have hknown : ∃ o ∈ s.db.outbox, o.deliveryId = k.1 ∧ k.2 ≤ o.generation := by
    rcases hcase.starts_cases with hstarts | ⟨r, hr, m, hm, o, hheld, -, hstarts, -⟩
    · exact h.counts.known k (hstarts ▸ hk)
    rw [hstarts] at hk
    rcases mem_append.mp hk with hk | hk
    · exact h.counts.known k hk
    · obtain ⟨-, -, hkey⟩ := h.start_key hr hm hheld
      rw [mem_singleton.mp hk, hkey]
      exact ⟨o, hheld.stored, rfl, le_refl _⟩
  obtain ⟨o, ho, hdelivery, hgeneration⟩ := hknown
  obtain ⟨o', ho', hbecomes⟩ := hcase.rows.forth ho
  exact ⟨o', ho', hbecomes.deliveryId.trans hdelivery, hgeneration.trans hbecomes.generation⟩

theorem step_attempts : ∀ o ∈ s'.db.outbox, o.attempts = s'.starts.count (o.deliveryId, o.generation) := by
  intro o' ho'
  cases h.row hcase ho' with
  | fresh _ _ _ hattempts hstarts hnew =>
    rw [hattempts, hstarts]
    refine (count_eq_zero.mpr fun hk => ?_).symm
    obtain ⟨x, hx, hdelivery, hgeneration⟩ := h.counts.known _ hk
    exact absurd (hnew x hx hdelivery) (not_lt.mpr hgeneration)
  | keeps o ho _ hkey _ _ _ _ _ hcount =>
    have hold := h.counts.attempts o ho
    rw [hkey]
    omega
  | ends r m rest o f _ _ hheld hf heq hstarts =>
    rw [heq, hstarts, hf.attempts, hf.deliveryId, hf.generation]
    exact h.counts.attempts o hheld.stored

theorem step_bounded (k : String × Nat) : s'.starts.count k ≤ maxAttempts := by
  rcases hcase.starts_cases with hstarts | ⟨r, hr, m, hm, o, hheld, hlt, hstarts, -⟩
  · rw [hstarts]
    exact h.counts.bounded k
  · obtain ⟨-, -, hkey⟩ := h.start_key hr hm hheld
    rw [hstarts, hkey, count_append, count_singleton]
    split
    next heq =>
      -- the counter of the row that is started was below the bound
      rw [← beq_iff_eq.mp heq, ← h.counts.attempts o hheld.stored]
      exact hlt
    · exact h.counts.bounded k

theorem step_calls (k : String × Nat) :
    s'.calls.countP (fun c => decide (c.publication.key = k)) + s'.rounds.countP (Round.waits k)
      ≤ s'.starts.count k := by
  have hle := h.counts.calls k
  have hnext : ∀ {r : Round}, r ∈ s.rounds → s'.rounds = r.next :: (s.endRound r.dispatcher).rounds →
      s'.rounds.countP (Round.waits k) ≤ s.rounds.countP (Round.waits k) := by
    intro r hr hrounds
    rw [hrounds, countP_cons, Round.waits_next]
    exact (Nat.le_add_right _ _).trans (endRound_waits hr k)
  cases hcase with
  | quiet _ hrounds hcalls hstarts =>
    rw [hcalls, hstarts]
    exact (Nat.add_le_add_left hrounds.countP_le _).trans hle
  | store _ hrounds hcalls hstarts =>
    rw [hcalls, hstarts, hrounds]
    exact hle
  | @claim i now token skipped _ chosen _ _ hrounds hcalls hstarts =>
    have hrest : (s.endRound i).rounds.countP (Round.waits k) ≤ s.rounds.countP (Round.waits k) :=
      filter_sublist.countP_le
    rw [hcalls, hstarts, hrounds, countP_cons]
    exact (Nat.add_le_add_left hrest _).trans hle
  | start r m rest o hr hphase hms _ _ _ hrounds hcalls hstarts =>
    have hrest := endRound_waits hr k
    have hwaits : Round.waits k { r with phase := .started (o.attempts + 1) } = decide (m.publication.key = k) :=
      Round.waits_started rfl hms
    rw [hcalls, hstarts, hrounds, countP_cons, hwaits, count_append, count_singleton]
    simp only [decide_eq_true_eq, beq_iff_eq]
    omega
  | publish r m rest attempt acked hr hphase hms _ hrounds hcalls hstarts =>
    have hrest := endRound_waits hr k
    rw [Round.waits_started hphase hms] at hrest
    have hsent : Round.waits k { r with phase := if acked then .acknowledged else .refused attempt } = false := by
      cases acked <;> rfl
    rw [hcalls, hstarts, hrounds, countP_cons, hsent, countP_append, countP_singleton]
    simp only [Bool.false_eq_true, if_false]
    omega
  | release r m rest o f hr _ _ _ _ _ _ hrounds hcalls hstarts | skip r hr _ hrounds hcalls hstarts =>
    rw [hcalls, hstarts]
    exact (Nat.add_le_add_left (hnext hr hrounds) _).trans hle

theorem step_acknowledged : ∀ r ∈ s'.rounds, ∀ m rest, r.phase = .acknowledged → r.messages = m :: rest →
      ⟨m.publication, true⟩ ∈ s'.calls := by
  intro r' hr' m' rest' hphase' hmessages'
  have hold : r' ∈ s.rounds → ⟨m'.publication, true⟩ ∈ s'.calls := fun hr =>
    hcase.calls_mono (h.ends.acknowledged r' hr m' rest' hphase' hmessages')
  -- a round that has just moved is acknowledged only if the broker has just answered
  cases hcase with
  | quiet _ hrounds => exact hold (hrounds.subset hr')
  | store _ hrounds => exact hold (hrounds ▸ hr')
  | claim chosen _ _ hrounds | start r m rest o _ _ _ _ _ _ hrounds | release r m rest o f _ _ _ _ _ _ _ hrounds
  | skip r _ _ hrounds =>
    rcases mem_front hrounds hr' with rfl | hr
    · cases hphase'
    · exact hold hr
  | publish r m rest attempt acked _ _ hmessages _ hrounds hcalls =>
    rcases mem_front hrounds hr' with rfl | hr
    · cases acked with
      | false => cases hphase'
      | true =>
        obtain ⟨rfl, -⟩ := List.cons.inj (hmessages'.symm.trans hmessages)
        rw [hcalls]
        exact mem_append_right _ mem_cons_self
    · exact hold hr

theorem step_dispatched : ∀ o ∈ s'.db.outbox, o.dispatchedAt.isSome → ⟨o.publication, true⟩ ∈ s'.calls := by
  intro o' ho' hdispatched'
  have hold : ∀ o ∈ s.db.outbox, o'.dispatchedAt = o.dispatchedAt → o'.publication = o.publication →
      ⟨o'.publication, true⟩ ∈ s'.calls := by
    intro o ho hsame hpublication
    rw [hpublication]
    exact hcase.calls_mono (h.ends.dispatched o ho (hsame ▸ hdispatched'))
  cases h.row hcase ho' with
  | fresh _ hnone =>
    rw [hnone] at hdispatched'
    cases hdispatched'
  | keeps o ho _ _ hpublication _ hdispatched => exact hold o ho hdispatched hpublication
  | ends r m rest o f hr hms hheld hf heq _ hdispatched =>
    subst heq
    rcases hdispatched with hkeeps | hphase
    · exact hold o hheld.stored (hkeeps o) (hf.publication o)
    -- the broker has acknowledged the message of the round, which is that of the row
    obtain ⟨-, hsame, -⟩ := h.start_key hr (hms ▸ mem_cons_self) hheld
    rw [hf.publication, ← hsame]
    exact hcase.calls_mono (h.ends.acknowledged r hr m rest hphase hms)

theorem step_failed : ∀ o ∈ s'.db.outbox, o.failedAt.isSome → maxAttempts ≤ o.attempts := by
  intro o' ho' hfailed'
  cases h.row hcase ho' with
  | fresh _ _ hnone =>
    rw [hnone] at hfailed'
    cases hfailed'
  | keeps o ho _ _ _ _ _ hfailed hle => exact (h.ends.failed o ho (hfailed ▸ hfailed')).trans hle
  | ends r m rest o f hr hms hheld hf heq _ _ hfailed =>
    subst heq
    rw [hf.attempts]
    rcases hfailed with hkeeps | ⟨-, hmax⟩ | ⟨attempt, hphase, hmax⟩
    · exact h.ends.failed o hheld.stored (hkeeps o ▸ hfailed')
    · exact hmax
    · -- the round has counted as many starts as the row
      obtain ⟨htoken, -, hkey⟩ := h.start_key hr (hms ▸ mem_cons_self) hheld
      have hcount := h.ends.counted r hr m rest attempt (.inr hphase) hms o hheld.stored hheld.id htoken
      rw [h.counts.attempts o hheld.stored, ← hkey, hcount]
      exact hmax

variable (hfresh : ∀ t ∈ op.tokens, t ∉ used)

include hfresh

theorem step_tokens : TokensInv (used ++ op.tokens) s' := by
  have hrows : ∀ o ∈ s'.db.outbox, ∀ token, o.token = some token → token ∈ used ++ op.tokens := by
    intro o ho token htoken
    rcases h.token hcase ho htoken with hnew | ⟨o₁, ho₁, htoken₁, -⟩
    · exact mem_append_right _ hnew
    · exact mem_append_left _ (h.tokens.rows o₁ ho₁ token htoken₁)
  refine ⟨hrows, fun r' hr' => ?_, fun r' hr' m hm => ?_, ?_⟩
  · rcases hcase.round hr' with ⟨r, hr, htoken, -⟩ | ⟨chosen, htoken, -⟩
    · exact mem_append_left _ (htoken ▸ h.tokens.rounds r hr)
    · exact mem_append_right _ htoken
  · rcases hcase.round hr' with ⟨r, hr, htoken, hmessages⟩ | ⟨chosen, -, -, hmessages, -⟩
    · exact htoken ▸ h.tokens.messages r hr m (hmessages hm)
    · rw [hmessages] at hm
      obtain ⟨o, -, rfl⟩ := mem_map.mp hm
      rfl
  -- the round that a step puts in front has a token that no other round has
  have hcons : ∀ {r' : Round} {i : Nat}, s'.rounds = r' :: (s.endRound i).rounds →
      (∀ x ∈ (s.endRound i).rounds, x.token ≠ r'.token) → (s'.rounds.map (·.token)).Nodup := by
    intro r' i hrounds hne
    rw [hrounds, map_cons, nodup_cons]
    refine ⟨fun hmem => ?_, (filter_sublist.map Round.token).nodup h.tokens.distinct⟩
    obtain ⟨x, hx, heq⟩ := mem_map.mp hmem
    exact hne x hx heq
  cases hcase with
  | quiet _ hrounds => exact (hrounds.map Round.token).nodup h.tokens.distinct
  | store _ hrounds => exact hrounds ▸ h.tokens.distinct
  | @claim i now token skipped _ chosen hchosen _ hrounds =>
    refine hcons hrounds fun x hx heq => ?_
    have hused := h.tokens.rounds x (mem_of_mem_filter hx)
    rw [show x.token = token from heq] at hused
    exact hfresh token mem_cons_self hused
  | start r m rest o hr _ _ _ _ _ hrounds | publish r m rest attempt acked hr _ _ _ hrounds
  | release r m rest o f hr _ _ _ _ _ _ hrounds | skip r hr _ hrounds =>
    exact hcons hrounds fun x hx => (h.tokens.other hr hx).2

theorem step_messages : MessagesInv s' := by
  refine ⟨fun r' hr' m hm o' ho' hid htoken => ?_, fun p hp => ?_⟩
  · rcases hcase.round hr' with ⟨r, hr, hrtoken, hms⟩ | ⟨chosen, hop, hchosen, hms, houtbox⟩
    · -- an old round has an old token, so the row had it before the step
      rcases h.token hcase ho' htoken with hnew | ⟨o, ho, htoken₁, hid₁, hpublication⟩
      · exact absurd (hrtoken ▸ h.tokens.rounds r hr) (hfresh _ hnew)
      · rw [hpublication]
        exact h.messages.held r hr m (hms hm) o ho (hid₁.trans hid) (hrtoken ▸ htoken₁)
    · -- a new token stands in the rows of its claim alone
      rw [hms] at hm
      obtain ⟨c, hc, rfl⟩ := mem_map.mp hm
      rw [houtbox] at ho'
      rcases mem_updateWhere_cases ho' with ⟨x, hx, -, rfl⟩ | ⟨hold, -⟩
      · obtain rfl : x = c := eq_of_key_eq h.rows.ids hx (hchosen c hc) hid
        rfl
      · exact absurd (h.tokens.rows o' hold _ htoken) (hfresh _ hop)
  · have hknown : ∃ o ∈ s.db.outbox, MessageOf p o := by
      rcases hcase.messages hp with hp | ⟨o, ho, rfl⟩
      · exact h.messages.known p hp
      · have hkey := Prod.mk.inj (h.rows.key o ho)
        exact ⟨o, ho, hkey.1.symm, hkey.2.le, fun _ => rfl⟩
    obtain ⟨o, ho, hof⟩ := hknown
    obtain ⟨o', ho', hbecomes⟩ := hcase.rows.forth ho
    refine ⟨o', ho', hbecomes.deliveryId.trans hof.deliveryId, hof.generation.trans hbecomes.generation, fun heq => ?_⟩
    have hsame : o.generation = p.payload.generation :=
      le_antisymm (hbecomes.generation.trans heq.le) hof.generation
    rw [hbecomes.current (heq.trans hsame.symm), hof.current hsame]

theorem step_counted : ∀ r ∈ s'.rounds, ∀ m rest attempt, r.phase = .started attempt ∨ r.phase = .refused attempt →
      r.messages = m :: rest → ∀ o ∈ s'.db.outbox, o.id = m.id → o.token = some r.token →
      s'.starts.count m.publication.key = attempt := by
  intro r' hr' m' rest' attempt' hphase' hmessages' o' ho' hid htoken
  -- the row had the token of the round before the step
  have hrow : ∀ r ∈ s.rounds, r.token = r'.token → ∃ o ∈ s.db.outbox, o.id = m'.id ∧ o.token = some r.token := by
    intro r hr heq
    rcases h.token hcase ho' htoken with hnew | ⟨o, ho, htoken₁, hid₁, -⟩
    · exact absurd (heq ▸ h.tokens.rounds r hr) (hfresh _ hnew)
    · exact ⟨o, ho, hid₁.trans hid, heq ▸ htoken₁⟩
  have hold : r' ∈ s.rounds → s'.starts = s.starts → s'.starts.count m'.publication.key = attempt' := by
    intro hr hstarts
    obtain ⟨o, ho, hid₁, htoken₁⟩ := hrow r' hr rfl
    rw [hstarts]
    exact h.ends.counted r' hr m' rest' attempt' hphase' hmessages' o ho hid₁ htoken₁
  cases hcase with
  | quiet _ hrounds _ hstarts => exact hold (hrounds.subset hr') hstarts
  | store _ hrounds _ hstarts => exact hold (hrounds ▸ hr') hstarts
  | claim chosen _ _ hrounds _ hstarts | release r m rest o f _ _ _ _ _ _ _ hrounds _ hstarts
  | skip r _ _ hrounds _ hstarts =>
    rcases mem_front hrounds hr' with rfl | hr
    · rcases hphase' with hphase' | hphase' <;> cases hphase'
    · exact hold hr hstarts
  | start r m rest o hr _ hms hheld _ _ hrounds _ hstarts =>
    obtain ⟨hotoken, -, hkey⟩ := h.start_key hr (hms ▸ mem_cons_self) hheld
    rw [hrounds] at hr'
    rw [hstarts, hkey, count_append]
    rcases mem_cons.mp hr' with rfl | hr'
    · obtain ⟨rfl, -⟩ := List.cons.inj (hmessages'.symm.trans hms)
      rcases hphase' with hphase' | hphase' <;> cases hphase'
      rw [hkey, ← h.counts.attempts o hheld.stored]
      simp
    · -- another round that holds a row holds another row
      obtain ⟨hr₁, hne⟩ := h.tokens.other hr hr'
      obtain ⟨x, hx, hid₁, htoken₁⟩ := hrow r' hr₁ rfl
      have hm' : m' ∈ r'.messages := hmessages' ▸ mem_cons_self
      have hkey' : m'.publication.key = (x.deliveryId, x.generation) := by
        rw [← h.messages.held r' hr₁ m' hm' x hx hid₁ htoken₁]
        exact h.rows.key x hx
      have hother : (o.deliveryId, o.generation) ≠ m'.publication.key := by
        intro heq
        rw [hkey'] at heq
        obtain rfl : o = x := eq_of_key_eq h.rows.deliveryIds hheld.stored hx (Prod.mk.inj heq).1
        exact hne (Option.some.inj (htoken₁.symm.trans hotoken))
      rw [h.ends.counted r' hr₁ m' rest' attempt' hphase' hmessages' x hx hid₁ htoken₁]
      simp [hother]
  | publish r m rest attempt acked hr hphase hms _ hrounds _ hstarts =>
    rcases mem_front hrounds hr' with rfl | hr₁
    · obtain ⟨o, ho, hid₁, htoken₁⟩ := hrow r hr rfl
      rw [hstarts]
      cases acked with
      | true => rcases hphase' with hphase' | hphase' <;> cases hphase'
      | false =>
        rcases hphase' with hphase' | hphase' <;> cases hphase'
        exact h.ends.counted r hr m' rest' attempt' (.inl hphase) hmessages' o ho hid₁ htoken₁
    · exact hold hr₁ hstarts

theorem step : PublishInv maxAttempts (used ++ op.tokens) s' where
  rows := h.rows.step hcase.rows
  tokens := h.step_tokens hcase hfresh
  messages := h.step_messages hcase hfresh
  counts := ⟨h.step_known hcase, h.step_attempts hcase, h.step_bounded hcase, h.step_calls hcase⟩
  ends := ⟨h.step_acknowledged hcase, h.step_counted hcase hfresh, h.step_dispatched hcase, h.step_failed hcase⟩

end PublishInv

/-! ## Runs -/

theorem PublishInv.init (maxAttempts : Nat) : PublishInv maxAttempts [] {} where
  rows := ⟨nodup_nil, nodup_nil, by simp⟩
  tokens := ⟨by simp, by simp, by simp, nodup_nil⟩
  messages := ⟨by simp, by simp [DispatchState.messages]⟩
  counts := ⟨by simp, by simp, by simp, by simp⟩
  ends := ⟨by simp, by simp, by simp, by simp⟩

/-- The outbox rows in the states of a run, in order. -/
def outboxHistory (ts : List (Transition DispatchState DispatchOp Unit)) : List OutboxRow :=
  ts.flatMap fun t => t.post.db.outbox

/-- The counter that the row had when it was last of the generation. -/
def recordedAttempts (history : List OutboxRow) (outboxId : String) (generation : Nat) : Nat :=
  match (history.filter fun o => o.id = outboxId && o.generation = generation).getLast? with
  | none => 0
  | some o => o.attempts

theorem recordedAttempts_eq {outboxId : String} {generation n : Nat}
    (hrow : ∃ o ∈ history, o.id = outboxId ∧ o.generation = generation)
    (h : ∀ o ∈ history, o.id = outboxId → o.generation = generation → o.attempts = n) (before : List OutboxRow) :
    recordedAttempts (before ++ history) outboxId generation = n := by
  obtain ⟨o, ho, hid, hgeneration⟩ := hrow
  rw [recordedAttempts, filter_append, getLast?_append]
  cases hx : (history.filter fun o => o.id = outboxId && o.generation = generation).getLast? with
  | none =>
    have hmem : o ∈ history.filter fun o => o.id = outboxId && o.generation = generation :=
      mem_filter.mpr ⟨ho, by simp [hid, hgeneration]⟩
    rw [getLast?_eq_none_iff.mp hx] at hmem
    cases hmem
  | some x =>
    obtain ⟨hstored, heq⟩ := mem_filter.mp (mem_of_getLast? hx)
    rw [Bool.and_eq_true, decide_eq_true_eq, decide_eq_true_eq] at heq
    exact h x hstored heq.1 heq.2

theorem recordedAttempts_append {outboxId : String} {generation : Nat}
    (hrow : ¬ ∃ o ∈ history, o.id = outboxId ∧ o.generation = generation) (before : List OutboxRow) :
    recordedAttempts (before ++ history) outboxId generation = recordedAttempts before outboxId generation := by
  have hnil : (history.filter fun o => o.id = outboxId && o.generation = generation) = [] := by
    refine filter_eq_nil_iff.mpr fun o ho heq => hrow ⟨o, ho, ?_⟩
    simpa using heq
  rw [recordedAttempts, filter_append, hnil, append_nil, recordedAttempts]

/-- What the rows so far say about the present. -/
structure HistoryInv (history : List OutboxRow) (s : DispatchState) : Prop where
  present : ∀ o ∈ s.db.outbox, o ∈ history
  becomes : ∀ o ∈ history, ∃ o' ∈ s.db.outbox, Becomes o o'
  messages : ∀ o ∈ history, ∀ p ∈ s.messages, p.key = (o.deliveryId, o.generation) → p = o.publication
  recorded : ∀ o ∈ history,
    recordedAttempts history o.id o.generation = s.starts.count (o.deliveryId, o.generation)
  sent : ∀ p ∈ s.messages, ∃ o ∈ history, p.key = (o.deliveryId, o.generation)

theorem HistoryInv.init : HistoryInv [] {} :=
  ⟨by simp, by simp, by simp, by simp, by simp [DispatchState.messages]⟩

namespace HistoryInv

variable (h : HistoryInv history s) (hinv : PublishInv maxAttempts used s) (hcase : DispatchCase maxAttempts s op s')

include h hinv hcase

theorem step_messages (ho : o ∈ history) {p : BrokerPublication} (hp : p ∈ s'.messages)
    (hkey : p.key = (o.deliveryId, o.generation)) : p = o.publication := by
  rcases hcase.messages hp with hp | ⟨x, hx, rfl⟩
  · exact h.messages o ho p hp hkey
  -- a claimed row of the generation is what the row became
  obtain ⟨y, hy, hbecomes⟩ := h.becomes o ho
  rw [hinv.rows.key x hx] at hkey
  obtain ⟨hdelivery, hgeneration⟩ := Prod.mk.inj hkey
  obtain rfl : x = y := eq_of_key_eq hinv.rows.deliveryIds hx hy (hdelivery.trans hbecomes.deliveryId.symm)
  exact hbecomes.current hgeneration

theorem starts_count (ho : o ∈ history) (hleft : ¬ ∃ x ∈ s'.db.outbox, x.id = o.id ∧ x.generation = o.generation) :
    s'.starts.count (o.deliveryId, o.generation) = s.starts.count (o.deliveryId, o.generation) := by
  rcases hcase.starts_cases with hstarts | ⟨r, hr, m, hm, x, hheld, -, hstarts, hmem⟩
  · rw [hstarts]
  obtain ⟨-, -, hkey⟩ := hinv.start_key hr hm hheld
  have hne : (x.deliveryId, x.generation) ≠ (o.deliveryId, o.generation) := by
    intro heq
    obtain ⟨hdelivery, hgeneration⟩ := Prod.mk.inj heq
    obtain ⟨y, hy, hbecomes⟩ := h.becomes o ho
    obtain rfl : x = y :=
      eq_of_key_eq hinv.rows.deliveryIds hheld.stored hy (hdelivery.trans hbecomes.deliveryId.symm)
    exact hleft ⟨_, hmem, hbecomes.id, hgeneration⟩
  rw [hstarts, hkey]
  simp [hne]

theorem step (hinv' : PublishInv maxAttempts (used ++ op.tokens) s') : HistoryInv (history ++ s'.db.outbox) s' := by
  have hbecomes : ∀ o ∈ history ++ s'.db.outbox, ∃ o' ∈ s'.db.outbox, Becomes o o' := by
    intro o ho
    rcases mem_append.mp ho with ho | ho
    · obtain ⟨x, hx, hox⟩ := h.becomes o ho
      obtain ⟨x', hx', hxx'⟩ := hcase.rows.forth hx
      exact ⟨x', hx', hox.trans hxx'⟩
    · exact ⟨o, ho, .refl o⟩
  refine ⟨fun o ho => mem_append_right _ ho, hbecomes, fun o ho p hp hkey => ?_, fun o ho => ?_, fun p hp => ?_⟩
  · rcases mem_append.mp ho with ho | ho
    · exact h.step_messages hinv hcase ho hp hkey
    · exact hinv'.eq_publication hp ho hkey
  · by_cases hrow : ∃ x ∈ s'.db.outbox, x.id = o.id ∧ x.generation = o.generation
    · refine recordedAttempts_eq hrow (fun x hx hid hgeneration => ?_) history
      obtain ⟨y, hy, hoy⟩ := hbecomes o ho
      obtain rfl : x = y := eq_of_key_eq hinv'.rows.ids hx hy (hid.trans hoy.id.symm)
      rw [hinv'.counts.attempts x hx, hoy.deliveryId, hgeneration]
    · rcases mem_append.mp ho with ho | ho
      · rw [recordedAttempts_append hrow, h.recorded o ho, h.starts_count hinv hcase ho hrow]
      · exact absurd ⟨o, ho, rfl, rfl⟩ hrow
  · rcases hcase.messages hp with hp | ⟨o, ho, rfl⟩
    · obtain ⟨o, ho, hkey⟩ := h.sent p hp
      exact ⟨o, mem_append_left _ ho, hkey⟩
    · exact ⟨o, mem_append_left _ (h.present o ho), hinv.rows.key o ho⟩

end HistoryInv

section Runs

variable (E : DeliveryEnv) (options : Nat → DispatcherOptions) (maxAttempts : Nat)

/-- **The invariants of a run** whose claims have different tokens. -/
theorem publishInv_run (ops : List DispatchOp) (hdistinct : (ops.flatMap DispatchOp.tokens).Nodup) :
    PublishInv maxAttempts (ops.flatMap DispatchOp.tokens) ((dispatchers E options maxAttempts).run {} ops) ∧
      HistoryInv (outboxHistory ((dispatchers E options maxAttempts).transitions {} ops))
        ((dispatchers E options maxAttempts).run {} ops) := by
  induction ops using reverseRecOn with
  | nil =>
    exact ⟨.init maxAttempts, .init⟩
  | append_singleton ops op ih =>
    rw [flatMap_append, flatMap_singleton] at hdistinct ⊢
    obtain ⟨hearlier, -, hfresh⟩ := nodup_append.mp hdistinct
    obtain ⟨hinv, hhistory⟩ := ih hearlier
    have hcase := dispatch_cases E options maxAttempts ((dispatchers E options maxAttempts).run {} ops) op
    have hinv' := hinv.step hcase fun t ht hused => hfresh t hused t ht rfl
    rw [Mealy.run_concat, Mealy.transitions_concat, outboxHistory, flatMap_append, flatMap_singleton]
    exact ⟨hinv', hhistory.step hinv hcase hinv'⟩

/-- **Publishing is bounded.** In every run of dispatchers that share `maxAttempts` and whose claims have
different tokens, the calls of the broker for a generation of an outbox row are at most the attempts recorded for
that generation, which are at most `maxAttempts`. Each such call carries the message that the row has in that
generation, and there are no other calls. -/
theorem publishing_bounded (ops : List DispatchOp) (hdistinct : (ops.flatMap DispatchOp.tokens).Nodup) :
    (∀ o ∈ outboxHistory ((dispatchers E options maxAttempts).transitions {} ops),
      (((dispatchers E options maxAttempts).run {} ops).calls.filter fun c =>
          c.publication.payload.deliveryId = o.deliveryId && c.publication.payload.generation = o.generation).length
        ≤ recordedAttempts (outboxHistory ((dispatchers E options maxAttempts).transitions {} ops)) o.id
          o.generation ∧
      recordedAttempts (outboxHistory ((dispatchers E options maxAttempts).transitions {} ops)) o.id o.generation
        ≤ maxAttempts ∧
      ∀ c ∈ ((dispatchers E options maxAttempts).run {} ops).calls,
        c.publication.payload.deliveryId = o.deliveryId → c.publication.payload.generation = o.generation →
        c.publication.subject = o.subject ∧ c.publication.payload = o.payload ∧
          c.publication.messageId = o.messageId) ∧
    ∀ c ∈ ((dispatchers E options maxAttempts).run {} ops).calls,
      ∃ o ∈ outboxHistory ((dispatchers E options maxAttempts).transitions {} ops),
        c.publication.payload.deliveryId = o.deliveryId ∧ c.publication.payload.generation = o.generation := by
  obtain ⟨hinv, hhistory⟩ := publishInv_run E options maxAttempts ops hdistinct
  have hmem : ∀ c ∈ ((dispatchers E options maxAttempts).run {} ops).calls,
      c.publication ∈ ((dispatchers E options maxAttempts).run {} ops).messages :=
    fun c hc => mem_append_right _ (mem_map_of_mem hc)
  refine ⟨fun o ho => ⟨?_, ?_, fun c hc hdelivery hgeneration => ?_⟩, fun c hc => ?_⟩
  · rw [hhistory.recorded o ho, ← countP_eq_length_filter]
    refine (countP_mono_left fun c _ hkey => ?_).trans
      ((Nat.le_add_right _ _).trans (hinv.counts.calls (o.deliveryId, o.generation)))
    simpa [BrokerPublication.key] using hkey
  · rw [hhistory.recorded o ho]
    exact hinv.counts.bounded _
  · have heq := hhistory.messages o ho c.publication (hmem c hc) (Prod.ext hdelivery hgeneration)
    rw [heq]
    exact ⟨rfl, rfl, rfl⟩
  · obtain ⟨o, ho, hkey⟩ := hhistory.sent c.publication (hmem c hc)
    exact ⟨o, ho, Prod.mk.inj hkey⟩

end Runs

/-- Dispatchers that claim for 30 seconds. -/
def sampleOptions : Nat → DispatcherOptions := fun _ => ⟨10, 30 * second, second, 60 * second⟩

/-- The first dispatcher counts a start and stalls. The second takes the row over and publishes it; then the first
one calls the broker as well. -/
def staleRun : List DispatchOp :=
  [.store (.insert sampleDelivery) rfl, .claim 1 second "claim_1" [], .begin 1,
    .claim 2 (60 * second) "claim_2" [], .begin 2, .publish 2 true, .publish 1 false, .finish 2 (61 * second)]

theorem publishing_bounded_stale : ((dispatchers sampleEnv sampleOptions 2).run {} staleRun).calls.length = 2 ∧
    ∀ o ∈ outboxHistory ((dispatchers sampleEnv sampleOptions 2).transitions {} staleRun),
      recordedAttempts (outboxHistory ((dispatchers sampleEnv sampleOptions 2).transitions {} staleRun)) o.id
        o.generation ≤ 2 ∧
      ∀ c ∈ ((dispatchers sampleEnv sampleOptions 2).run {} staleRun).calls,
        c.publication.payload.deliveryId = o.deliveryId → c.publication.payload.generation = o.generation →
        c.publication.payload = o.payload := by
  refine ⟨by decide +kernel, fun o ho => ?_⟩
  obtain ⟨-, hbound, hsame⟩ := (publishing_bounded sampleEnv sampleOptions 2 staleRun (by decide)).1 o ho
  exact ⟨hbound, fun c hc hdelivery hgeneration => (hsame c hc hdelivery hgeneration).2.1⟩

/-! ## Claims come back -/

/-- What `ORDER BY available_at,created_at,id` compares. -/
def OutboxRow.claimKey (o : OutboxRow) : ℤ ×ₗ ℤ ×ₗ String := toLex (o.availableAt, toLex (o.createdAt, o.id))

theorem claimsBefore_iff {a b : OutboxRow} : a.claimsBefore b = true ↔ a.claimKey ≤ b.claimKey := by
  simp only [claimsBefore, claimKey, Prod.Lex.toLex_le_toLex, Bool.or_eq_true, Bool.and_eq_true, decide_eq_true_eq]

instance : Std.Total fun a b : OutboxRow => a.claimsBefore b = true where
  total a b := by
    rw [claimsBefore_iff, claimsBefore_iff]
    exact le_total _ _

instance : IsTrans OutboxRow fun a b => a.claimsBefore b = true where
  trans a b c hab hbc := by
    rw [claimsBefore_iff] at hab hbc ⊢
    exact le_trans hab hbc

/-- From some time on, a pending row may be claimed: it is available, and its claim is absent or stale. -/
theorem claimable_eventually (h : o.isPending = true) : ∃ time : Int, ∀ now staleBefore : Int,
    time ≤ staleBefore → staleBefore ≤ now → o.claimable now staleBefore = true := by
  cases hclaim : o.claim with
  | none =>
    refine ⟨o.availableAt, fun now staleBefore htime hstale => ?_⟩
    have hnow : o.availableAt ≤ now := htime.trans hstale
    simp [claimable, h, hclaim, hnow]
  | some c =>
    refine ⟨max o.availableAt c.claimedAt, fun now staleBefore htime hstale => ?_⟩
    have hnow : o.availableAt ≤ now := (le_max_left _ _).trans (htime.trans hstale)
    have hclaimed : c.claimedAt ≤ staleBefore := (le_max_right _ _).trans htime
    simp [claimable, h, hclaim, hnow, hclaimed]

/-- A claim takes a row that may be claimed and is not locked, or as many rows as it may that come before it. -/
theorem claimOutbox_takes {now staleBefore limit : Int} {token : String} {skipped : List String} {db : DeliveryDb}
    (ho : o ∈ db.outbox) (hclaimable : o.claimable now staleBefore = true) (hskipped : o.id ∉ skipped)
    (htoken : token ≠ "") (hlimit : 1 ≤ limit ∧ limit ≤ 1000) (hstale : staleBefore ≤ now) :
    ∃ rows db', claimOutbox now staleBefore token limit skipped db = .ok (rows, db') ∧
      ((o.claimed now token, o.claim.isSome) ∈ rows ∨
        (rows.length = limit.toNat ∧ ∀ r ∈ rows, r.1.claimsBefore o = true)) := by
  have hvalid : ¬ (token = "" || decide (limit < 1) || decide (1000 < limit) || decide (now < staleBefore)) = true := by
    simp [htoken, hlimit, hstale]
  refine ⟨_, _, if_neg hvalid, ?_⟩
  have hsorted := pairwise_insertionSort (fun a b => a.claimsBefore b = true)
    (db.outbox.filter fun o => o.claimable now staleBefore && !skipped.contains o.id)
  have hmem : o ∈ (db.outbox.filter fun o => o.claimable now staleBefore && !skipped.contains o.id).insertionSort
      fun a b => a.claimsBefore b = true := by
    rw [mem_insertionSort, mem_filter]
    exact ⟨ho, by simp [hclaimable, hskipped]⟩
  rw [← take_append_drop limit.toNat (.insertionSort _ _)] at hmem hsorted
  rcases mem_append.mp hmem with htaken | hleft
  · exact .inl (mem_map_of_mem htaken)
  -- the rows that are taken come before those that are left
  refine .inr ⟨?_, fun r hr => ?_⟩
  · have hlong := length_pos_of_mem hleft
    rw [length_drop] at hlong
    rw [length_map, claimCandidates, length_take]
    omega
  · obtain ⟨x, hx, rfl⟩ := mem_map.mp hr
    exact (pairwise_append.mp hsorted).2.2 x hx o hleft

/-- **The outbox loses nothing.** In every state that dispatchers, sinks, publishers and operators reach, with
different tokens for different claims: a row is marked as dispatched only if the broker acknowledged the message of
its present generation; a row that is neither dispatched nor failed is taken by every claim from some time on that
does not find it locked, unless as many rows as the claim may take come before it; and a row is failed only after
`maxAttempts` publish starts of its present generation. -/
theorem outbox_loses_nothing (E : DeliveryEnv) (options : Nat → DispatcherOptions) (maxAttempts : Nat)
    (ops : List DispatchOp) (hdistinct : (ops.flatMap DispatchOp.tokens).Nodup) :
    ∀ o ∈ ((dispatchers E options maxAttempts).run {} ops).db.outbox,
      (o.payload.deliveryId = o.deliveryId ∧ o.payload.generation = o.generation) ∧
      (o.dispatchedAt.isSome → ∃ c ∈ ((dispatchers E options maxAttempts).run {} ops).calls, c.acked = true ∧
        c.publication.subject = o.subject ∧ c.publication.payload = o.payload ∧
        c.publication.messageId = o.messageId) ∧
      (o.isPending = true → ∃ time : Int, ∀ (now staleBefore limit : Int) (token : String) (skipped : List String),
        time ≤ staleBefore → staleBefore ≤ now → 1 ≤ limit ∧ limit ≤ 1000 → token ≠ "" → o.id ∉ skipped →
        o.claimable now staleBefore = true ∧ ∃ rows db', claimOutbox now staleBefore token limit skipped
          ((dispatchers E options maxAttempts).run {} ops).db = .ok (rows, db') ∧
          ((o.claimed now token, o.claim.isSome) ∈ rows ∨
            (rows.length = limit.toNat ∧ ∀ r ∈ rows, r.1.claimsBefore o = true))) ∧
      (o.failedAt.isSome → maxAttempts ≤
        ((dispatchers E options maxAttempts).run {} ops).starts.count (o.deliveryId, o.generation)) := by
  obtain ⟨hinv, -⟩ := publishInv_run E options maxAttempts ops hdistinct
  intro o ho
  refine ⟨Prod.mk.inj (hinv.rows.key o ho), fun hdispatched => ?_, fun hpending => ?_, fun hfailed => ?_⟩
  · exact ⟨_, hinv.ends.dispatched o ho hdispatched, rfl, rfl, rfl, rfl⟩
  · obtain ⟨time, htime⟩ := claimable_eventually hpending
    refine ⟨time, fun now staleBefore limit token skipped hle hstale hlimit htoken hskipped => ?_⟩
    have hclaimable := htime now staleBefore hle hstale
    exact ⟨hclaimable, claimOutbox_takes ho hclaimable hskipped htoken hlimit hstale⟩
  · rw [← hinv.counts.attempts o ho]
    exact hinv.ends.failed o ho hfailed

/-- A broker that does not answer: the row is failed after its one attempt. -/
def refusedRun : List DispatchOp :=
  [.store (.insert sampleDelivery) rfl, .claim 1 second "claim_1" [], .begin 1, .publish 1 false,
    .finish 1 (2 * second)]

theorem outbox_loses_nothing_stale :
    (∃ o ∈ ((dispatchers sampleEnv sampleOptions 2).run {} staleRun).db.outbox, o.dispatchedAt.isSome ∧
      ∃ c ∈ ((dispatchers sampleEnv sampleOptions 2).run {} staleRun).calls, c.acked = true ∧
        c.publication.subject = o.subject ∧ c.publication.payload = o.payload ∧
        c.publication.messageId = o.messageId) ∧
    (∃ o ∈ ((dispatchers sampleEnv sampleOptions 2).run {} (staleRun.take 5)).db.outbox, o.isPending = true ∧
      ∃ time : Int, ∀ now : Int, time ≤ now - 30 * second → o.claimable now (now - 30 * second) = true) ∧
    ∃ o ∈ ((dispatchers sampleEnv sampleOptions 1).run {} refusedRun).db.outbox, o.failedAt.isSome ∧
      1 ≤ ((dispatchers sampleEnv sampleOptions 1).run {} refusedRun).starts.count (o.deliveryId, o.generation) := by
  refine ⟨?_, ?_, ?_⟩
  · obtain ⟨o, ho, hdispatched⟩ : ∃ o ∈ ((dispatchers sampleEnv sampleOptions 2).run {} staleRun).db.outbox,
        o.dispatchedAt.isSome := by decide +kernel
    exact ⟨o, ho, hdispatched,
      (outbox_loses_nothing sampleEnv sampleOptions 2 staleRun (by decide) o ho).2.1 hdispatched⟩
  · obtain ⟨o, ho, hpending⟩ : ∃ o ∈ ((dispatchers sampleEnv sampleOptions 2).run {} (staleRun.take 5)).db.outbox,
        o.isPending = true := by decide +kernel
    obtain ⟨time, htime⟩ :=
      (outbox_loses_nothing sampleEnv sampleOptions 2 (staleRun.take 5) (by decide) o ho).2.2.1 hpending
    refine ⟨o, ho, hpending, time, fun now hle => ?_⟩
    have hstale : now - 30 * second ≤ now := by
      unfold second
      omega
    exact (htime now _ 10 "claim_3" [] hle hstale ⟨by decide, by decide⟩ (by decide) (by simp)).1
  · obtain ⟨o, ho, hfailed⟩ : ∃ o ∈ ((dispatchers sampleEnv sampleOptions 1).run {} refusedRun).db.outbox,
        o.failedAt.isSome := by decide +kernel
    exact ⟨o, ho, hfailed,
      (outbox_loses_nothing sampleEnv sampleOptions 1 refusedRun (by decide) o ho).2.2.2 hfailed⟩

end RelayHub.Delivery
