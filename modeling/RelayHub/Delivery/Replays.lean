import RelayHub.Delivery.Dispatcher
import RelayHub.Delivery.Finality

/-! # RelayHub deliveries — operator replay

`ReplayAdminDeadLetters` takes a list of dead-lettered deliveries to their next generation, all of them
or none, and remembers its result under the idempotency key of the command. `ReplaysAll` is what a
command does that replays. `AgreeInv` is the invariant across the two tables: a delivery, its outbox row,
the generation inside the payload and the message id are of one generation. A broker message carries
the generation of the payload it was made from, so one from an older generation finds the delivery
at a later one and starts nothing. -/

namespace RelayHub.Delivery

open List Table OutboxRow

/-! ## One generation in both tables -/

/-- The message id of a generation; the first has no suffix. -/
def generationMessageId (E : DeliveryEnv) (deliveryId : String) (generation : Nat) : String :=
  if generation = 1 then (outboxIdentities E.sha256 deliveryId).2
  else (outboxIdentities E.sha256 deliveryId).2 ++ "-g" ++ toString generation

/-- The outbox row belongs to the delivery and to its generation. -/
structure Agrees (E : DeliveryEnv) (d : DeliveryRow) (o : OutboxRow) : Prop where
  generation : o.generation = d.generation
  payloadGeneration : o.payload.generation = d.generation
  payloadDelivery : o.payload.deliveryId = d.id
  payloadEvent : o.payload.eventId = d.eventId
  messageId : o.messageId = generationMessageId E d.id d.generation

/-- Every delivery has one outbox row, of its own generation. -/
structure AgreeInv (E : DeliveryEnv) (db : DeliveryDb) : Prop where
  ids : (db.deliveries.map (·.id)).Nodup
  outboxIds : (db.outbox.map (·.id)).Nodup
  outboxKeys : (db.outbox.map (·.deliveryId)).Nodup
  owned : ∀ o ∈ db.outbox, ∃ d ∈ db.deliveries, d.id = o.deliveryId
  agrees : ∀ d ∈ db.deliveries, ∃ o ∈ db.outbox, o.deliveryId = d.id ∧ Agrees E d o
  first : ∀ d ∈ db.deliveries, 1 ≤ d.generation

variable {E : DeliveryEnv} {db db' : DeliveryDb} {op : DeliveryOp} {out : DeliveryOut}

/-- What a transaction does to the messages and to the replay records. -/
inductive MessagesStep (E : DeliveryEnv) (db db' : DeliveryDb) : DeliveryOp → DeliveryOut → Prop where
  | same {op : DeliveryOp} {out : DeliveryOut} (hreplay : op.isReplay = false)
      (houtbox : List.Forall₂ SameMessage db.outbox db'.outbox)
      (hrequests : db'.replayRequests = db.replayRequests)
      (hrows : List.Forall₂ (RowStep op out) db.deliveries db'.deliveries) : MessagesStep E db db' op out
  | insert (n : NewDelivery) (hnew : ∀ d ∈ db.deliveries, d.id ≠ n.deliveryId)
      (hfresh : ∀ o ∈ db.outbox, o.id ≠ (n.outboxRow E.sha256).id ∧ o.deliveryId ≠ n.deliveryId)
      (hrows : db'.deliveries = db.deliveries ++ [n.row])
      (houtbox : db'.outbox = db.outbox ++ [n.outboxRow E.sha256])
      (hrequests : db'.replayRequests = db.replayRequests) : MessagesStep E db db' (.insert n) .done
  | replay {command : ReplayCommand} {clock : Int} {items : List ReplayItem} {stored : Bool}
      (h : replayAdminDeadLetters E command clock db = .ok ((items, stored), db')) :
      MessagesStep E db db' (.replay command clock) (.replayed items stored)

theorem transact_messages (hnd : db.Keyed) (h : transact E db op = .ok (out, db')) : MessagesStep E db db' op out := by
  have hdispatch : op.isReplay = false → Dispatches op out db db' → MessagesStep E db db' op out :=
    fun hreplay hrows => .same hreplay hrows.messages hrows.requests hrows.rows.1
  cases hsink : op.isSink with
  | true =>
    obtain ⟨houtbox, hrequests⟩ := transact_sink hsink h
    have hreplay : op.isReplay = false := by cases op <;> first | rfl | cases hsink
    cases (transact_rows hnd h).1 with
    | insert n hop => cases hop ▸ hsink
    | update hrows => exact .same hreplay (houtbox ▸ forall₂_same.mpr fun _ _ => .refl _) hrequests hrows
  | false =>
    cases op <;> try contradiction
    all_goals
      obtain ⟨a, ha, heq⟩ := map_ok h
      cases heq
    case false.insert n =>
      obtain ⟨hnew, hfresh, rfl⟩ := insertDeliveryAndOutbox_rows ha
      exact .insert n hnew hfresh rfl rfl rfl
    case false.replay => exact .replay ha
    case false.claim => exact hdispatch rfl (claimOutbox_rows ha)
    case false.beginPublish => exact hdispatch rfl (beginOutboxPublish_rows rfl ha)
    case false.markDispatched => exact hdispatch rfl (markOutboxDispatched_rows rfl ha)
    case false.retry => exact hdispatch rfl (retryOutbox_rows rfl ha)
    case false.fail => exact hdispatch rfl (failOutbox_rows rfl ha)

/-! ## A replay -/

/-- The outbox row of a replayed delivery: its next generation, with a message of its own. -/
def OutboxRow.nextGeneration (E : DeliveryEnv) (now : Int) (o : OutboxRow) : OutboxRow :=
  o.replayed (generationMessageId E o.deliveryId (o.generation + 1)) now

/-- **What a command does that replays**: every listed delivery was dead-lettered and goes to its next
generation, together with its outbox row. -/
structure ReplaysAll (E : DeliveryEnv) (c : ReplayCommand) (pre post : DeliveryDb) (items : List ReplayItem) :
    Prop where
  listed : ∀ id ∈ c.deliveryIds, ∃ d ∈ pre.deliveries, d.id = id ∧ d.status = .deadLetter
  deliveries : post.deliveries
    = updateWhere (fun d => c.deliveryIds.contains d.id) (DeliveryRow.replayed c.now) pre.deliveries
  outbox : post.outbox
    = updateWhere (fun o => c.deliveryIds.contains o.deliveryId) (nextGeneration E c.now) pre.outbox
  attempts : post.attempts = pre.attempts
  /-- One item for each listed delivery, with its generations. -/
  items : (items.map (·.deliveryId)).Perm c.deliveryIds ∧ ∀ item ∈ items, ∃ d ∈ pre.deliveries, item = replayItem d

section Replay

variable {now : Int}

/-- A locked row of a replay: a dead-lettered delivery with its outbox row, of one generation. -/
structure Locked (db : DeliveryDb) (d : DeliveryRow) (o : OutboxRow) : Prop where
  delivery : d ∈ db.deliveries
  dead : d.status = .deadLetter
  outbox : o ∈ db.outbox
  owner : o.deliveryId = d.id
  generation : o.generation = d.generation
  first : 1 ≤ d.generation

structure UniqueKeys (db : DeliveryDb) : Prop where
  ids : (db.deliveries.map (·.id)).Nodup
  outboxIds : (db.outbox.map (·.id)).Nodup
  outboxKeys : (db.outbox.map (·.deliveryId)).Nodup

/-- Both tables after the deliveries `ids` are replayed. -/
def replayIn (E : DeliveryEnv) (now : Int) (ids : List String) (db : DeliveryDb) : DeliveryDb :=
  { db with
    deliveries := updateWhere (fun d => ids.contains d.id) (DeliveryRow.replayed now) db.deliveries
    outbox := updateWhere (fun o => ids.contains o.deliveryId) (nextGeneration E now) db.outbox }

theorem replayOne_eq {d : DeliveryRow} {o : OutboxRow} (hkeys : UniqueKeys db) (hlocked : Locked db d o)
    (h : replayOne E now d o db = .ok db') :
    db' = { db with
      deliveries := updateWhere (fun x => x.id = d.id) (DeliveryRow.replayed now) db.deliveries
      outbox := updateWhere (fun x => x.deliveryId = d.id) (nextGeneration E now) db.outbox } := by
  unfold replayOne at h
  dsimp only at h
  split at h
  · cases h
  split at h
  · cases h
  split at h
  · cases h
  split at h
  · cases h
  cases h
  have hdeliveries : ∀ x ∈ db.deliveries, (decide (x.id = d.id) && decide (x.generation = d.generation)
      && decide (x.status = .deadLetter)) = decide (x.id = d.id) := by
    intro x hx
    by_cases hid : x.id = d.id
    · obtain rfl := eq_of_key_eq hkeys.ids hx hlocked.delivery hid
      simp [hlocked.dead]
    · simp [hid]
  have houtbox : ∀ x ∈ db.outbox, (decide (x.id = o.id) && decide (x.generation = d.generation))
      = decide (x.deliveryId = d.id) := by
    intro x hx
    by_cases hid : x.deliveryId = d.id
    · obtain rfl := eq_of_key_eq hkeys.outboxKeys hx hlocked.outbox (hid.trans hlocked.owner.symm)
      simp [hlocked.generation, hid]
    · have hne : x.id ≠ o.id := by
        intro heq
        rw [eq_of_key_eq hkeys.outboxIds hx hlocked.outbox heq] at hid
        exact hid hlocked.owner
      simp [hid, hne]
  congr 1
  · exact updateWhere_congr hdeliveries fun _ _ _ => rfl
  refine updateWhere_congr houtbox fun x hx hhit => ?_
  rw [houtbox x hx, decide_eq_true_eq] at hhit
  obtain rfl := eq_of_key_eq hkeys.outboxKeys hx hlocked.outbox (hhit.trans hlocked.owner.symm)
  have hlater : x.generation + 1 ≠ 1 := by
    have hfirst := hlocked.first
    have hgen := hlocked.generation
    omega
  rw [nextGeneration, generationMessageId, if_neg hlater, hhit, hlocked.generation]

theorem replayAll_eq {rows : List (DeliveryRow × OutboxRow)} (hkeys : UniqueKeys db)
    (hlocked : ∀ x ∈ rows, Locked db x.1 x.2) (hnd : (rows.map (·.1.id)).Nodup)
    (h : replayAll E now rows db = .ok db') : db' = replayIn E now (rows.map (·.1.id)) db := by
  induction rows generalizing db with
  | nil =>
    cases h
    simp [replayIn, updateWhere]
  | cons row rows ih =>
    obtain ⟨d, o⟩ := row
    unfold replayAll at h
    split at h
    · cases h
    next db₁ hone =>
    rw [map_cons, nodup_cons] at hnd
    have hfirst := replayOne_eq hkeys (hlocked (d, o) mem_cons_self) hone
    -- the rows still to come are not touched by this turn
    have hkeys₁ : UniqueKeys db₁ := by
      rw [hfirst]
      refine ⟨?_, ?_, ?_⟩
      · exact (map_updateWhere (f := DeliveryRow.replayed now) (·.id) fun _ _ _ => rfl).symm ▸ hkeys.ids
      · exact (map_updateWhere (f := nextGeneration E now) (·.id) fun _ _ _ => rfl).symm ▸
          hkeys.outboxIds
      · exact (map_updateWhere (f := nextGeneration E now) (·.deliveryId) fun _ _ _ => rfl).symm ▸
          hkeys.outboxKeys
    have hlocked₁ : ∀ x ∈ rows, Locked db₁ x.1 x.2 := by
      intro x hx
      have hx' := hlocked x (mem_cons_of_mem _ hx)
      have hne : x.1.id ≠ d.id := fun heq => hnd.1 (heq ▸ mem_map_of_mem hx)
      rw [hfirst]
      refine ⟨mem_updateWhere.mpr ⟨x.1, hx'.delivery, if_neg ?_⟩, hx'.dead,
        mem_updateWhere.mpr ⟨x.2, hx'.outbox, if_neg ?_⟩, hx'.owner, hx'.generation, hx'.first⟩
      · simpa using hne
      · simpa [hx'.owner] using hne
    rw [ih hkeys₁ hlocked₁ hnd.2 h, hfirst, replayIn]
    congr 1
    · exact updateWhere_updateWhere_key (·.id) (f := DeliveryRow.replayed now) (fun _ => rfl) hnd.1 _
    · exact updateWhere_updateWhere_key (·.deliveryId) (f := nextGeneration E now) (fun _ => rfl) hnd.1 _

variable (h : AgreeInv E db)

include h

theorem AgreeInv.uniqueKeys : UniqueKeys db := ⟨h.ids, h.outboxIds, h.outboxKeys⟩

theorem AgreeInv.locked {ids : List String} : ∀ x ∈ replayRows ids db, Locked db x.1 x.2 := by
  intro x hx
  obtain ⟨hd, -, hdead, ho, howner⟩ := mem_replayRows.mp hx
  obtain ⟨o, ho', howner', hagrees⟩ := h.agrees x.1 hd
  obtain rfl := eq_of_key_eq h.outboxKeys ho ho' (howner.trans howner'.symm)
  exact ⟨hd, hdead, ho, howner, hagrees.generation, h.first x.1 hd⟩

theorem AgreeInv.replayRows_nodup (ids : List String) : ((replayRows ids db).map (·.1.id)).Nodup := by
  have hsingle : ∀ d ∈ db.deliveries,
      ((db.outbox.filter (·.deliveryId = d.id)).map fun o => (d, o)).map (·.1.id) = [d.id] := by
    intro d hd
    obtain ⟨o, ho, howner, -⟩ := h.agrees d hd
    rw [← howner, filter_key_eq_singleton h.outboxKeys ho]
    simp [howner]
  have hsorted : (((db.deliveries.filter fun d => ids.contains d.id && d.status = .deadLetter).insertionSort
      fun a b => a.id ≤ b.id).map (·.id)).Nodup := by
    refine ((perm_insertionSort _ _).map _).nodup_iff.mpr ?_
    exact (filter_sublist.map _).nodup h.ids
  rw [replayRows, map_flatMap]
  rw [flatMap_congr (g := fun d => [d.id])]
  · rwa [← map_eq_flatMap]
  · intro d hd
    exact hsingle d (mem_of_mem_filter ((mem_insertionSort _).mp hd))

end Replay

/-! ## The command -/

/-- `DELETE FROM admin_replay_requests WHERE expires_at<=clock_timestamp()`. -/
def unexpired (clock : Int) (db : DeliveryDb) : List ReplayRequestRow :=
  db.replayRequests.filter fun r => decide (clock < r.expiresAt)

/-- What a successful command does: it returns the stored result, or it replays and stores. -/
inductive ReplayCase (E : DeliveryEnv) (c : ReplayCommand) (clock : Int) (db db' : DeliveryDb)
    (items : List ReplayItem) : Bool → Prop where
  | stored (r : ReplayRequestRow) (hr : r ∈ unexpired clock db)
      (hkey : r.idempotencyKeyHash = c.idempotencyKeyHash) (hsame : r.requestFingerprint = c.requestFingerprint)
      (hresult : r.result = items) (hdb : db' = { db with replayRequests := unexpired clock db }) :
      ReplayCase E c clock db db' items true
  | fresh (hfresh : ∀ r ∈ unexpired clock db, r.idempotencyKeyHash ≠ c.idempotencyKeyHash)
      (hall : ReplaysAll E c db db' items)
      (hrequests : db'.replayRequests = unexpired clock db ++
        [⟨c.idempotencyKeyHash, c.requestFingerprint, items, c.now + adminReplayRetention⟩]) :
      ReplayCase E c clock db db' items false

variable {c : ReplayCommand} {clock : Int} {items : List ReplayItem} {stored : Bool}

theorem replay_case (hinv : AgreeInv E db) (h : replayAdminDeadLetters E c clock db = .ok ((items, stored), db')) :
    ReplayCase E c clock db db' items stored := by
  unfold replayAdminDeadLetters at h
  split at h
  · cases h
  next hvalid =>
  dsimp only at h
  split at h
  next r hfind =>
    split at h
    · cases h
    next hsame =>
    cases h
    exact .stored r (mem_of_find?_eq_some hfind) (by simpa using find?_some hfind) (not_not.mp hsame) rfl rfl
  next hnone =>
  split at h
  · cases h
  next hlength =>
  split at h
  · cases h
  next hall =>
  split at h
  · cases h
  cases h
  have hinv' : AgreeInv E { db with replayRequests := unexpired clock db } :=
    { hinv with }
  have hrows := hinv'.replayRows_nodup c.deliveryIds
  have heq := replayAll_eq hinv'.uniqueKeys hinv'.locked hrows hall
  -- as many locked rows as ids: they are the listed deliveries
  have hperm : ((replayRows c.deliveryIds { db with replayRequests := unexpired clock db }).map
      (·.1.id)).Perm c.deliveryIds := by
    refine (subperm_of_subset hrows fun id hid => ?_).perm_of_length_le ?_
    · obtain ⟨x, hx, rfl⟩ := mem_map.mp hid
      exact (mem_replayRows.mp hx).2.1
    · rw [length_map]
      exact (not_not.mp hlength).ge
  have hcontains : ∀ id, ((replayRows c.deliveryIds
      { db with replayRequests := unexpired clock db }).map (·.1.id)).contains id = c.deliveryIds.contains id := by
    intro id
    rw [Bool.eq_iff_iff, contains_iff_mem, contains_iff_mem, hperm.mem_iff]
  refine .fresh (fun r hr hkey => ?_) ⟨fun id hid => ?_, ?_, ?_, ?_, ?_, ?_⟩ ?_
  · exact find?_eq_none.mp hnone r hr (decide_eq_true hkey)
  · obtain ⟨x, hx, rfl⟩ := mem_map.mp (hperm.mem_iff.mpr hid)
    obtain ⟨hd, -, hdead, -⟩ := mem_replayRows.mp hx
    exact ⟨x.1, hd, rfl, hdead⟩
  · rw [heq]
    exact updateWhere_congr (fun d _ => hcontains d.id) fun _ _ _ => rfl
  · rw [heq]
    exact updateWhere_congr (fun o _ => hcontains o.deliveryId) fun _ _ _ => rfl
  · rw [heq]
    rfl
  · rw [map_map]
    exact hperm
  · intro item hitem
    obtain ⟨x, hx, rfl⟩ := mem_map.mp hitem
    exact ⟨x.1, (mem_replayRows.mp hx).1, rfl⟩
  · rw [heq]
    rfl

/-! ## The invariant is kept -/

theorem ReplaysAll.agreeInv (h : AgreeInv E db) (hall : ReplaysAll E c db db' items) : AgreeInv E db' := by
  have hids : db'.deliveries.map (·.id) = db.deliveries.map (·.id) := by
    rw [hall.deliveries]
    exact map_updateWhere (f := DeliveryRow.replayed c.now) (·.id) fun _ _ _ => rfl
  refine ⟨hids ▸ h.ids, ?_, ?_, fun o' ho' => ?_, fun d' hd' => ?_, fun d' hd' => ?_⟩
  · rw [hall.outbox, map_updateWhere (f := nextGeneration E c.now) (·.id) fun _ _ _ => rfl]
    exact h.outboxIds
  · rw [hall.outbox, map_updateWhere (f := nextGeneration E c.now) (·.deliveryId) fun _ _ _ => rfl]
    exact h.outboxKeys
  · rw [hall.outbox] at ho'
    obtain ⟨o, ho, rfl⟩ := mem_updateWhere.mp ho'
    obtain ⟨d, hd, hid⟩ := h.owned o ho
    have hmem : d.id ∈ db'.deliveries.map (·.id) := hids ▸ mem_map_of_mem hd
    obtain ⟨d', hd', hid'⟩ := mem_map.mp hmem
    refine ⟨d', hd', ?_⟩
    split <;> exact hid'.trans hid
  · rw [hall.deliveries] at hd'
    obtain ⟨d, hd, rfl⟩ := mem_updateWhere.mp hd'
    obtain ⟨o, ho, howner, hagrees⟩ := h.agrees d hd
    refine ⟨_, hall.outbox ▸ mem_updateWhere_of_mem _ ho, ?_⟩
    rw [howner]
    split
    · refine ⟨howner, ?_, ?_, hagrees.payloadDelivery, hagrees.payloadEvent, ?_⟩
      · exact congrArg (· + 1) hagrees.generation
      · exact congrArg (· + 1) hagrees.generation
      · show generationMessageId E o.deliveryId (o.generation + 1) = generationMessageId E d.id (d.generation + 1)
        rw [howner, hagrees.generation]
    · exact ⟨howner, hagrees⟩
  · rw [hall.deliveries] at hd'
    rcases mem_updateWhere_cases hd' with ⟨d, -, -, rfl⟩ | ⟨hd, -⟩
    · exact Nat.le_add_left 1 d.generation
    · exact h.first d' hd

theorem AgreeInv.step (h : AgreeInv E db) (hstep : MessagesStep E db db' op out) : AgreeInv E db' := by
  cases hstep with
  | same hreplay houtbox hrequests hrows =>
    have hids : db'.deliveries.map (·.id) = db.deliveries.map (·.id) :=
      map_eq_of_forall₂ hrows (·.id) fun _ _ => RowStep.id
    have hgeneration : ∀ {d d'}, RowStep op out d d' → d'.generation = d.generation := by
      intro d d' hrow
      rcases hrow.generation with hgen | ⟨hyes, -⟩
      · exact hgen
      · cases hyes.symm.trans hreplay
    refine ⟨hids ▸ h.ids, ?_, ?_, fun o' ho' => ?_, fun d' hd' => ?_, fun d' hd' => ?_⟩
    · rw [map_eq_of_forall₂ houtbox (·.id) fun _ _ => SameMessage.id]
      exact h.outboxIds
    · rw [map_eq_of_forall₂ houtbox (·.deliveryId) fun _ _ => SameMessage.deliveryId]
      exact h.outboxKeys
    · obtain ⟨o, ho, hsame⟩ := exists_of_forall₂_right houtbox ho'
      obtain ⟨d, hd, hid⟩ := h.owned o ho
      obtain ⟨d', hd', hrow⟩ := exists_of_forall₂_left hrows hd
      exact ⟨d', hd', by rw [hrow.id, hid, hsame.deliveryId]⟩
    · obtain ⟨d, hd, hrow⟩ := exists_of_forall₂_right hrows hd'
      obtain ⟨o, ho, howner, hagrees⟩ := h.agrees d hd
      obtain ⟨o', ho', hsame⟩ := exists_of_forall₂_left houtbox ho
      refine ⟨o', ho', by rw [hsame.deliveryId, howner, hrow.id], ?_⟩
      refine ⟨?_, ?_, ?_, ?_, ?_⟩
      · rw [hsame.generation, hagrees.generation, hgeneration hrow]
      · rw [hsame.payload, hagrees.payloadGeneration, hgeneration hrow]
      · rw [hsame.payload, hagrees.payloadDelivery, hrow.id]
      · rw [hsame.payload, hagrees.payloadEvent, hrow.eventId]
      · rw [hsame.messageId, hagrees.messageId, hgeneration hrow, hrow.id]
    · obtain ⟨d, hd, hrow⟩ := exists_of_forall₂_right hrows hd'
      rw [hgeneration hrow]
      exact h.first d hd
  | insert n hnew hfresh hrows houtbox =>
    refine ⟨?_, ?_, ?_, ?_, ?_, ?_⟩
    · rw [hrows]
      exact nodup_keys_concat h.ids hnew
    · rw [houtbox]
      exact nodup_keys_concat h.outboxIds fun o ho => (hfresh o ho).1
    · rw [houtbox]
      exact nodup_keys_concat h.outboxKeys fun o ho => (hfresh o ho).2
    · rw [houtbox, hrows]
      refine forall_mem_concat (fun o ho => ?_) ⟨n.row, mem_append_right _ mem_cons_self, rfl⟩
      obtain ⟨d, hd, hid⟩ := h.owned o ho
      exact ⟨d, mem_append_left _ hd, hid⟩
    · rw [hrows, houtbox]
      refine forall_mem_concat (fun d hd => ?_) ⟨_, mem_append_right _ mem_cons_self, rfl, rfl, rfl, rfl, rfl, rfl⟩
      obtain ⟨o, ho, hagrees⟩ := h.agrees d hd
      exact ⟨o, mem_append_left _ ho, hagrees⟩
    · rw [hrows]
      exact forall_mem_concat h.first (le_refl 1)
  | replay hreplay =>
    cases replay_case h hreplay with
    | stored r _ _ _ _ hdb =>
      rw [hdb]
      exact { h with }
    | fresh _ hall => exact hall.agreeInv h

/-! ## Records of commands -/

section Records

variable {r : ReplayRequestRow}

/-- No clock of a replay among the operations has reached `expiresAt`. -/
def ReplayedBefore (expiresAt : Int) (ops : List DeliveryOp) : Prop :=
  ∀ c clock, DeliveryOp.replay c clock ∈ ops → clock < expiresAt

theorem mem_unexpired : r ∈ unexpired clock db ↔ r ∈ db.replayRequests ∧ clock < r.expiresAt := by
  rw [unexpired, mem_filter, decide_eq_true_eq]

theorem unexpired_keys (h : (db.replayRequests.map (·.idempotencyKeyHash)).Nodup) :
    ((unexpired clock db).map (·.idempotencyKeyHash)).Nodup :=
  h.sublist (filter_sublist.map _)

/-- `idempotency_key_hash text PRIMARY KEY`. -/
theorem MessagesStep.requestKeys (hinv : AgreeInv E db) (h : MessagesStep E db db' op out)
    (hnd : (db.replayRequests.map (·.idempotencyKeyHash)).Nodup) :
    (db'.replayRequests.map (·.idempotencyKeyHash)).Nodup := by
  cases h with
  | same _ _ hrequests | insert _ _ _ _ _ hrequests => exact hrequests ▸ hnd
  | replay hreplay =>
    cases replay_case hinv hreplay with
    | stored r _ _ _ _ hdb =>
      rw [hdb]
      exact unexpired_keys hnd
    | fresh hfresh _ hrequests =>
      rw [hrequests]
      exact nodup_keys_concat (unexpired_keys hnd) hfresh

theorem MessagesStep.request_kept (hinv : AgreeInv E db) (h : MessagesStep E db db' op out)
    (hr : r ∈ db.replayRequests) (hbefore : ReplayedBefore r.expiresAt [op]) : r ∈ db'.replayRequests := by
  cases h with
  | same _ _ hrequests | insert _ _ _ _ _ hrequests => exact hrequests ▸ hr
  | replay hreplay =>
    have hkept := mem_unexpired.mpr ⟨hr, hbefore _ _ mem_cons_self⟩
    cases replay_case hinv hreplay with
    | stored _ _ _ _ _ hdb => exact hdb ▸ hkept
    | fresh _ _ hrequests => exact hrequests ▸ mem_append_left _ hkept

/-- A command whose key has a record returns the stored result or fails. -/
theorem replay_recorded (hnd : (db.replayRequests.map (·.idempotencyKeyHash)).Nodup)
    (hr : r ∈ db.replayRequests) (hkey : c.idempotencyKeyHash = r.idempotencyKeyHash)
    (hclock : clock < r.expiresAt) :
    replayAdminDeadLetters E c clock db = if !c.validate then .error .invalidArgument
      else if r.requestFingerprint ≠ c.requestFingerprint then .error .conflict
      else .ok ((r.result, true), { db with replayRequests := unexpired clock db }) := by
  have hfind : (unexpired clock db).find? (·.idempotencyKeyHash = c.idempotencyKeyHash) = some r := by
    rw [hkey]
    exact find?_key_eq_some (unexpired_keys hnd) (mem_unexpired.mpr ⟨hr, hclock⟩)
  unfold unexpired at hfind
  simp only [replayAdminDeadLetters, hfind, unexpired]

end Records

section Runs

variable {before : List DeliveryOp}

/-- A step that succeeds is one of `MessagesStep`, and one that fails leaves the tables. -/
theorem exec_messages (E : DeliveryEnv) (hnd : db.Keyed) (op : DeliveryOp) :
    MessagesStep E db ((deliverySystem E).next db op) op ((deliverySystem E).out db op) ∨
      ∃ e, (deliverySystem E).out db op = .failed e ∧ (deliverySystem E).next db op = db := by
  cases h : transact E db op with
  | error e => exact .inr ⟨e, exec_of_error h⟩
  | ok =>
    rw [(exec_of_ok h).1, (exec_of_ok h).2]
    exact .inl (transact_messages hnd h)

theorem reach_agreeInv (E : DeliveryEnv) (ops : List DeliveryOp) : AgreeInv E (reach E ops) := by
  refine (deliverySystem E).run_induction (P := AgreeInv E) ?_ (fun db op hinv => ?_) ops
  · exact ⟨nodup_nil, nodup_nil, nodup_nil, by simp, by simp, by simp⟩
  · rcases exec_messages E hinv.ids op with hstep | ⟨e, -, hsame⟩
    · exact hinv.step hstep
    · rwa [hsame]

theorem reach_requestKeys (E : DeliveryEnv) (ops : List DeliveryOp) :
    ((reach E ops).replayRequests.map (·.idempotencyKeyHash)).Nodup := by
  induction ops using reverseRecOn with
  | nil => exact nodup_nil
  | append_singleton ops op ih =>
    rw [reach_concat]
    rcases exec_messages E (reach_agreeInv E ops).ids op with hstep | ⟨e, -, hsame⟩
    · exact hstep.requestKeys (reach_agreeInv E ops) ih
    · rwa [hsame]

theorem reach_request_kept (mid : List DeliveryOp) {r : ReplayRequestRow} (hr : r ∈ (reach E before).replayRequests)
    (hbefore : ReplayedBefore r.expiresAt mid) : r ∈ (reach E (before ++ mid)).replayRequests := by
  induction mid using reverseRecOn with
  | nil => rwa [append_nil]
  | append_singleton mid op ih =>
    have hr₁ := ih fun c clock hmem => hbefore c clock (mem_append_left _ hmem)
    rw [← append_assoc, reach_concat]
    have hinv := reach_agreeInv E (before ++ mid)
    rcases exec_messages E hinv.ids op with hstep | ⟨e, -, hsame⟩
    · exact hstep.request_kept hinv hr₁ fun c clock hmem => hbefore c clock (mem_append_right _ hmem)
    · rwa [hsame]

theorem reach_replay (E : DeliveryEnv) (before : List DeliveryOp) (c : ReplayCommand) (clock : Int) :
    (∃ e, (deliverySystem E).out (reach E before) (.replay c clock) = .failed e ∧
      reach E (before ++ [.replay c clock]) = reach E before) ∨
    ∃ items stored, (deliverySystem E).out (reach E before) (.replay c clock) = .replayed items stored ∧
      ReplayCase E c clock (reach E before) (reach E (before ++ [.replay c clock])) items stored := by
  have hinv := reach_agreeInv E before
  rw [reach_concat]
  rcases exec_messages E hinv.ids (.replay c clock) with hstep | hfailed
  · right
    generalize hout : (deliverySystem E).out (reach E before) (.replay c clock) = out at hstep
    cases hstep with
    | same hreplay => cases hreplay
    | replay hreplay => exact ⟨_, _, rfl, replay_case hinv hreplay⟩
  · exact .inl hfailed

/-- After a successful command its key has a record, with the result. -/
theorem ReplayCase.recorded (h : ReplayCase E c clock db db' items stored) :
    ∃ r ∈ db'.replayRequests, r.idempotencyKeyHash = c.idempotencyKeyHash ∧
      r.requestFingerprint = c.requestFingerprint ∧ r.result = items ∧
      (stored = false → r.expiresAt = c.now + adminReplayRetention) := by
  cases h with
  | stored r hr hkey hsame hresult hdb => exact ⟨r, hdb ▸ hr, hkey, hsame, hresult, by simp⟩
  | fresh _ _ hrequests =>
    exact ⟨_, hrequests ▸ mem_append_right _ mem_cons_self, rfl, rfl, rfl, fun _ => rfl⟩

end Runs

/-! ## Messages of older generations -/

/-- The delivery and the generation an operation starts work for. -/
def DeliveryOp.startsFor : DeliveryOp → Option (String × Int)
  | .beginCallback deliveryId generation _ _ _ _ => some (deliveryId, generation)
  | .assign deliveryId _ _ _ generation _ _ _ => some (deliveryId, generation)
  | _ => none

section Older

variable {d : DeliveryRow} {generation : Int} (hnd : db.Keyed) (hd : d ∈ db.deliveries)
  (hne : (d.generation : Int) ≠ generation)

include hnd hd hne

theorem beginCallbackAttempt_older {token : String} {now lease : Int} {target : CallbackTarget} :
    ∃ e, beginCallbackAttempt d.id generation token now lease target db = .error e := by
  unfold beginCallbackAttempt
  split
  · exact ⟨_, rfl⟩
  split
  next hfind _ =>
    have hfound := find?_some hfind
    simp only [Bool.and_eq_true, decide_eq_true_eq] at hfound
    rw [eq_of_key_eq hnd (mem_of_find?_eq_some hfind) hd hfound.1, if_pos (by simp [hne])]
    exact ⟨_, rfl⟩
  · exact ⟨_, rfl⟩

theorem assignStreamDelivery_older {targetAppId connectionId token : String} {now lease maxProcessing : Int} :
    ∃ e, assignStreamDelivery d.id targetAppId connectionId token generation now lease maxProcessing db = .error e := by
  unfold assignStreamDelivery
  split
  · exact ⟨_, rfl⟩
  split
  · exact ⟨_, rfl⟩
  rw [find?_key_eq_some hnd hd]
  simp only [if_pos hne]
  split <;> exact ⟨_, rfl⟩

/-- Work for another generation than the current one is not started. -/
theorem starts_older (E : DeliveryEnv) (hop : op.startsFor = some (d.id, generation)) :
    ∃ e, (deliverySystem E).out db op = .failed e ∧ (deliverySystem E).next db op = db := by
  have herror : ∃ e, transact E db op = .error e := by
    cases op <;> cases hop
    case beginCallback =>
      obtain ⟨e, he⟩ := beginCallbackAttempt_older hnd hd hne
      exact ⟨e, by rw [transact, he]; rfl⟩
    case assign =>
      obtain ⟨e, he⟩ := assignStreamDelivery_older hnd hd hne
      exact ⟨e, by rw [transact, he]; rfl⟩
  obtain ⟨e, he⟩ := herror
  exact ⟨e, exec_of_error he⟩

end Older

/-- The row a message is made from names its delivery and the generation of that. -/
theorem AgreeInv.message (hinv : AgreeInv E db) {o : OutboxRow} (ho : o ∈ db.outbox) :
    ∃ d ∈ db.deliveries, d.id = o.payload.deliveryId ∧ d.generation = o.payload.generation := by
  obtain ⟨d, hd, hid⟩ := hinv.owned o ho
  obtain ⟨o', ho', howner, hagrees⟩ := hinv.agrees d hd
  obtain rfl := eq_of_key_eq hinv.outboxKeys ho' ho (howner.trans hid)
  exact ⟨d, hd, hagrees.payloadDelivery.symm, hagrees.payloadGeneration.symm⟩

/-- A command of the run with this key and fingerprint replayed, with this result. -/
def Replayed (E : DeliveryEnv) (ops : List DeliveryOp) (keyHash fingerprint : String) (items : List ReplayItem) :
    Prop :=
  ∃ before c clock after, ops = before ++ .replay c clock :: after ∧
    (deliverySystem E).out (reach E before) (.replay c clock) = .replayed items false ∧
    c.idempotencyKeyHash = keyHash ∧ c.requestFingerprint = fingerprint

theorem reach_request_origin (ops : List DeliveryOp) {r : ReplayRequestRow} (hr : r ∈ (reach E ops).replayRequests) :
    Replayed E ops r.idempotencyKeyHash r.requestFingerprint r.result := by
  obtain ⟨before, op, after, rfl, hnew, hsince⟩ :=
    Mealy.exists_since (P := fun ops => r ∈ (reach E ops).replayRequests) not_mem_nil hr
  have hr := hsince [] nil_prefix
  rw [reach_concat] at hr
  have hinv := reach_agreeInv E before
  rcases exec_messages E hinv.ids op with hstep | ⟨e, -, hsame⟩
  · generalize hout : (deliverySystem E).out (reach E before) op = out at hstep
    cases hstep with
    | same _ _ hrequests | insert _ _ _ _ _ hrequests => exact absurd (hrequests ▸ hr) hnew
    | replay hreplay =>
      cases replay_case hinv hreplay with
      | stored _ _ _ _ _ hdb =>
        rw [hdb] at hr
        exact absurd (mem_unexpired.mp hr).1 hnew
      | fresh _ _ hrequests =>
        rw [hrequests, mem_append, mem_singleton] at hr
        rcases hr with hr | rfl
        · exact absurd (mem_unexpired.mp hr).1 hnew
        · exact ⟨before, _, _, after, rfl, hout, rfl, rfl⟩
  · rw [hsame] at hr
    exact absurd hr hnew

/-- **Operator replay is all-or-nothing, idempotent and exact in the generation**, in every run. -/
theorem operator_replay_exact (E : DeliveryEnv) (ops : List DeliveryOp) :
    -- a command fails and changes nothing, or returns the result of an earlier one and leaves both tables,
    -- or replays every listed delivery
    (∀ before c clock after, ops = before ++ .replay c clock :: after →
      let out := (deliverySystem E).out (reach E before) (.replay c clock)
      let post := reach E (before ++ [.replay c clock])
      (∃ e, out = .failed e ∧ post = reach E before) ∨
      (∃ items, out = .replayed items true ∧ post = { reach E before with replayRequests := post.replayRequests } ∧
        Replayed E before c.idempotencyKeyHash c.requestFingerprint items) ∨
      ∃ items, out = .replayed items false ∧ ReplaysAll E c (reach E before) post items) ∧
    -- until the record of a command that replayed expires, its key replays nothing more
    (∀ before c clock items mid c' clock' after,
      ops = before ++ .replay c clock :: mid ++ .replay c' clock' :: after →
      (deliverySystem E).out (reach E before) (.replay c clock) = .replayed items false →
      ReplayedBefore (c.now + adminReplayRetention) (mid ++ [.replay c' clock']) →
      c'.idempotencyKeyHash = c.idempotencyKeyHash →
      let db := reach E (before ++ .replay c clock :: mid)
      (c'.requestFingerprint = c.requestFingerprint → c'.validate = true →
        (deliverySystem E).out db (.replay c' clock') = .replayed items true ∧
        (deliverySystem E).next db (.replay c' clock') = { db with replayRequests := unexpired clock' db }) ∧
      (c'.requestFingerprint ≠ c.requestFingerprint →
        ∃ e, (deliverySystem E).out db (.replay c' clock') = .failed e ∧
          (deliverySystem E).next db (.replay c' clock') = db)) ∧
    -- every delivery has one outbox row, and its payload and message id are of the same generation
    (∀ d ∈ (reach E ops).deliveries, ∃ o ∈ (reach E ops).outbox, o.deliveryId = d.id ∧ Agrees E d o ∧
      ∀ o' ∈ (reach E ops).outbox, o'.deliveryId = d.id → o' = o) ∧
    -- a message published from the outbox starts nothing once its generation is over
    (∀ before mid op after, ops = before ++ mid ++ op :: after → ∀ o ∈ (reach E before).outbox,
      op.startsFor = some (o.payload.deliveryId, (o.payload.generation : Int)) →
      ∃ d ∈ (reach E (before ++ mid)).deliveries, d.id = o.payload.deliveryId ∧
        o.payload.generation ≤ d.generation ∧
        (o.payload.generation < d.generation →
          ∃ e, (deliverySystem E).out (reach E (before ++ mid)) op = .failed e ∧
            reach E (before ++ mid ++ [op]) = reach E (before ++ mid))) := by
  refine ⟨?_, ?_, ?_, ?_⟩
  · intro before c clock after _
    rcases reach_replay E before c clock with hfailed | ⟨items, stored, hout, hcase⟩
    · exact .inl hfailed
    right
    generalize reach E (before ++ [.replay c clock]) = post at hcase
    cases hcase with
    | stored r hr hkey hsame hresult hdb =>
      have horigin := reach_request_origin before (mem_unexpired.mp hr).1
      rw [hkey, hsame, hresult] at horigin
      exact .inl ⟨items, hout, by rw [hdb], horigin⟩
    | fresh _ hall => exact .inr ⟨items, hout, hall⟩
  · intro before c clock items mid c' clock' after _ hfirst hbefore hkey
    obtain ⟨r, hr, hrkey, hrsame, hresult, hexpires⟩ :
        ∃ r ∈ (reach E (before ++ [.replay c clock])).replayRequests,
          r.idempotencyKeyHash = c.idempotencyKeyHash ∧ r.requestFingerprint = c.requestFingerprint ∧
          r.result = items ∧ r.expiresAt = c.now + adminReplayRetention := by
      rcases reach_replay E before c clock with ⟨e, hfailed, -⟩ | ⟨items', stored, hout, hcase⟩
      · cases hfirst.symm.trans hfailed
      · obtain ⟨rfl, rfl⟩ := DeliveryOut.replayed.inj (hout.symm.trans hfirst)
        obtain ⟨r, hr, hrkey, hrsame, hresult, hexpires⟩ := hcase.recorded
        exact ⟨r, hr, hrkey, hrsame, hresult, hexpires rfl⟩
    -- the record stands until the second command
    have hr' := reach_request_kept mid hr fun c clock hmem =>
      hexpires ▸ hbefore c clock (mem_append_left _ hmem)
    rw [append_assoc, singleton_append] at hr'
    have hclock : clock' < r.expiresAt :=
      hexpires ▸ hbefore c' clock' (mem_append_right _ mem_cons_self)
    have hcall := replay_recorded (E := E) (reach_requestKeys E _) hr' (hkey.trans hrkey.symm) hclock
    refine ⟨fun hsame hvalid => ?_, fun hother => ?_⟩
    · rw [if_neg (by simp [hvalid]), if_neg (by simp [hrsame, hsame]), hresult] at hcall
      exact exec_of_ok (congrArg (Except.map _) hcall)
    · have herror : ∃ e, replayAdminDeadLetters E c' clock' (reach E (before ++ .replay c clock :: mid))
          = .error e := by
        rw [hcall, hrsame, if_pos hother.symm]
        split <;> exact ⟨_, rfl⟩
      obtain ⟨e, he⟩ := herror
      exact ⟨e, exec_of_error (congrArg (Except.map _) he)⟩
  · intro d hd
    have hinv := reach_agreeInv E ops
    obtain ⟨o, ho, howner, hagrees⟩ := hinv.agrees d hd
    exact ⟨o, ho, howner, hagrees, fun o' ho' howner' =>
      eq_of_key_eq hinv.outboxKeys ho' ho (howner'.trans howner.symm)⟩
  · intro before mid op after _ o ho hop
    obtain ⟨d₀, hd₀, hid₀, hgen₀⟩ := (reach_agreeInv E before).message ho
    obtain ⟨d, hd, hid, hgen⟩ := reach_kept mid hd₀
    rw [hid₀] at hid
    rw [hgen₀] at hgen
    refine ⟨d, hd, hid, hgen, fun hlater => ?_⟩
    rw [reach_concat]
    rw [← hid] at hop
    exact starts_older (reach_inv E _).ids hd (by omega) E hop

/-! ## A sample -/

/-- A delivery that the dispatcher gave up on. -/
def deadRun : List DeliveryOp :=
  [.insert sampleDelivery, .claim second 0 "claim_1" 10 [],
    .fail (outboxIdentities sampleEnv.sha256 "dlv_1").1 "claim_1" (2 * second) "broker unavailable"]

def sampleReplay : ReplayCommand where
  deliveryIds := ["dlv_1"]
  idempotencyKeyHash := "0000000000000000000000000000000000000000000000000000000000000000"
  requestFingerprint := "1111111111111111111111111111111111111111111111111111111111111111"
  actorId := "admin_1"
  now := 3 * second

/-- The operator sends the command twice: the second one returns the result of the first, and a worker
with the message of the first generation starts nothing. -/
theorem operator_replay_exact_repeated :
    (deliverySystem sampleEnv).out (reach sampleEnv (deadRun ++ [.replay sampleReplay (3 * second)]))
        (.replay sampleReplay (4 * second))
      = .replayed [⟨"dlv_1", "evt_1", "job_1", 1, 2⟩] true ∧
    ∃ e, (deliverySystem sampleEnv).out (reach sampleEnv (deadRun ++ [.replay sampleReplay (3 * second)]))
        (.beginCallback "dlv_1" 1 "token_1" (5 * second) (30 * second) sampleTarget) = .failed e := by
  have hfirst : (deliverySystem sampleEnv).out (reach sampleEnv deadRun) (.replay sampleReplay (3 * second))
      = .replayed [⟨"dlv_1", "evt_1", "job_1", 1, 2⟩] false := rfl
  constructor
  · have hagain := (operator_replay_exact sampleEnv _).2.1 deadRun sampleReplay (3 * second) _ [] sampleReplay
      (4 * second) [] rfl hfirst (by
        intro c clock hmem
        cases mem_singleton.mp hmem
        decide) rfl
    exact (hagain.1 rfl (by decide)).1
  · obtain ⟨d, hd, hid, -, hlater⟩ := (operator_replay_exact sampleEnv _).2.2.2 deadRun
      [.replay sampleReplay (3 * second)]
      (.beginCallback "dlv_1" 1 "token_1" (5 * second) (30 * second) sampleTarget) [] rfl
      _ mem_cons_self rfl
    obtain ⟨e, hfailed, -⟩ := hlater (by
      obtain rfl := mem_singleton.mp hd
      decide)
    exact ⟨e, hfailed⟩

end RelayHub.Delivery
