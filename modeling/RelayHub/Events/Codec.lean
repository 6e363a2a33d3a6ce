import RelayHub.Events.Publish

/-! # RelayHub events — the stored envelope reads back

The text that `insertDeliveryAndOutbox` stores is written by `json.Marshal` and read by a stream session
with a decoder that refuses unknown fields. `decodeEnvelope_marshal` says what the session sees: the same
envelope, with the data and the queue metadata in the form `Event.stored` gives them. The decoder's
nesting limit is the only thing that can go wrong. -/

namespace RelayHub.Events

open Json Option

/-! ## Values -/

theorem namesField_quote (key name : String) :
    namesField (quote key) name = decide (key.toList.map foldRune = name.toList) := by
  simp [namesField, quote, unquoteChars_quoteChunk]

variable {α : Type}

theorem structInto_ofFields (set : α → List Chunk → Json → Option α) (a : α) (fs : List (String × Json)) :
    structInto set a (ofFields fs) = fs.foldlM (fun a f => set a (quote f.1) f.2) a := by
  simp [structInto, ofFields, List.foldlM_map]

theorem foldlM_trans {β : Type} {f : α → β → Option α} {a b c : α} {xs ys : List β} (hxs : xs.foldlM f a = some b)
    (hys : ys.foldlM f b = some c) : (xs ++ ys).foldlM f a = some c := by
  simp [hxs, hys]

theorem foldlM_cons_trans {β : Type} {f : α → β → Option α} {a b c : α} {x : β} {xs : List β} (hx : f a x = some b)
    (hxs : xs.foldlM f b = some c) : (x :: xs).foldlM f a = some c := by
  simp [hx, hxs]

/-- A field that `omitempty` leaves out is not read, and has its zero value. -/
theorem foldlM_omitIf {f : α → String × Json → Option α} {a b : α} {empty : Bool} {name : String} {v : Json}
    (hempty : empty = true → a = b) (hset : f a (name, v) = some b) :
    (omitIf empty name v).foldlM f a = some b := by
  cases empty with
  | false => simp [omitIf, hset]
  | true => simp [omitIf, hempty rfl]

@[simp] theorem stringInto_ofString (old s : String) : stringInto old (ofString s) = some s := by
  simp [stringInto, ofString]

theorem intInto_ofInt (old : Int) {i : Int} (h : IsInt64 i) : intInto old (ofInt i) = some i := by
  exact Number.toInt?_ofInt h

theorem isVerbatim_of_mem_format {t : Int} {cs : List Char} (h : Rfc3339.format t = some cs) :
    ∀ c ∈ cs, isVerbatim c = true := by
  intro c hc
  rcases Rfc3339.mem_format h hc with hd | hsep
  · exact isVerbatim_of_isDigit hd
  · simp only [List.mem_cons, List.not_mem_nil, or_false] at hsep
    rcases hsep with rfl | rfl | rfl | rfl | rfl <;> decide

variable {j : Json}

theorem timeInto_timeJson (old : Int) {t : Int} (h : timeJson t = some j) : timeInto old j = some t := by
  obtain ⟨cs, hcs, rfl⟩ := map_eq_some_iff.mp h
  show Rfc3339.parse false (Chunk.textAll (quote (.ofList cs))) = some t
  rw [textAll_quote (isVerbatim_of_mem_format hcs)]
  exact Rfc3339.parse_format false hcs

variable {raw : String}

theorem rawJson_rawInto {v : Json} (h : rawJson raw = some v) : rawJson (rawInto v) = some v := by
  obtain ⟨w, hw, rfl⟩ := map_eq_some_iff.mp h
  have hdepth : (escapeHTML w).depth ≤ maxDepth := by
    rw [depth_escapeHTML]
    exact depth_le_of_decode hw
  simp [rawJson, rawInto, decode_text hdepth]

/-! ## The queue part -/

variable {fs : List (String × Json)} {e : Event}

/-- The fold of `structInto` over the metadata field. -/
theorem foldlM_metadataField {q : QueueEvent} (h : metadataField raw = some fs) :
    fs.foldlM (fun a f => QueueEvent.set a (quote f.1) f.2) { q with metadata := "" } =
      some { q with metadata := ((rawJson raw).map rawInto).getD "" } := by
  unfold metadataField at h
  split at h
  next hempty =>
    cases h
    rw [hempty]
    rfl
  next =>
  obtain ⟨v, hv, rfl⟩ := map_eq_some_iff.mp h
  have hset : QueueEvent.set { q with metadata := "" } (quote "metadata") v =
      some { q with metadata := rawInto v } := by
    rfl
  simp [hset, hv]

theorem structInto_queue {q : QueueEvent} (h : q.fields = some fs) (hp : IsInt64 q.priority) :
    structInto QueueEvent.set {} (ofFields fs) = some q.stored := by
  obtain ⟨at_, hat, h⟩ := bind_eq_some_iff.mp h
  obtain ⟨ms, hms, h⟩ := bind_eq_some_iff.mp h
  cases h
  have htime : QueueEvent.set {} (quote "available_at") at_ = some { availableAt := q.availableAt } := by
    simp only [QueueEvent.set, namesField_quote, timeInto_timeJson _ hat]
    rfl
  have hkey (a : QueueEvent) : QueueEvent.set a (quote "ordering_key") (ofString q.orderingKey) =
      some { a with orderingKey := q.orderingKey } := by
    simp only [QueueEvent.set, namesField_quote, stringInto_ofString]
    rfl
  have hpriority (a : QueueEvent) : QueueEvent.set a (quote "priority") (ofInt q.priority) =
      some { a with priority := q.priority } := by
    simp only [QueueEvent.set, namesField_quote, intInto_ofInt _ hp]
    rfl
  rw [structInto_ofFields]
  refine foldlM_trans (foldlM_trans (b := { availableAt := q.availableAt, orderingKey := q.orderingKey })
      (foldlM_trans (foldlM_cons_trans htime rfl) ?_) ?_)
    (foldlM_metadataField (q := { q with dedupHash := "" }) hms)
  · exact foldlM_omitIf (fun hempty => by rw [of_decide_eq_true hempty]) (hkey _)
  · exact foldlM_omitIf (fun hempty => by rw [of_decide_eq_true hempty]) (hpriority _)

/-! ## Events and envelopes -/

theorem structInto_event (h : e.json = some j) (hp : ∀ q ∈ e.queue, IsInt64 q.priority) :
    ∃ e', e.stored = some e' ∧ structInto Event.set {} j = some e' := by
  have hstored : e.json.isSome = true := by rw [h]; rfl
  obtain ⟨data, hdata, h⟩ := bind_eq_some_iff.mp h
  obtain ⟨at_, hat, h⟩ := bind_eq_some_iff.mp h
  obtain ⟨queue, hqueue, h⟩ := bind_eq_some_iff.mp h
  cases h
  refine ⟨{ e with data := rawInto data, queue := e.queue.map QueueEvent.stored }, ?_, ?_⟩
  · obtain ⟨w, hw⟩ := isSome_iff_exists.mp hstored
    simp only [Event.stored, hw, hdata]
  · have hid (a : Event) : Event.set a (quote "id") (ofString e.id) = some { a with id := e.id } := by
      simp only [Event.set, namesField_quote, stringInto_ofString]
      rfl
    have htype (a : Event) : Event.set a (quote "type") (ofString e.type) = some { a with type := e.type } := by
      simp only [Event.set, namesField_quote, stringInto_ofString]
      rfl
    have hsource (a : Event) : Event.set a (quote "source_app_id") (ofString e.sourceAppId) =
        some { a with sourceAppId := e.sourceAppId } := by
      simp only [Event.set, namesField_quote, stringInto_ofString]
      rfl
    have htargets (a : Event) : Event.set a (quote "target_app_ids") (ofStrings e.targetAppIds) =
        some { a with targetAppIds := e.targetAppIds } := by
      simp only [Event.set, namesField_quote, unmarshalStrings_ofStrings]
      rfl
    have hraw (a : Event) : Event.set a (quote "data") data = some { a with data := rawInto data } := by
      simp only [Event.set, namesField_quote]
      rfl
    have htime (a : Event) : Event.set a (quote "created_at") at_ = some { a with createdAt := e.createdAt } := by
      simp only [Event.set, namesField_quote, timeInto_timeJson _ hat]
      rfl
    rw [structInto_ofFields]
    refine foldlM_trans (foldlM_cons_trans (hid _) <| foldlM_cons_trans (htype _) <|
      foldlM_cons_trans (hsource _) <| foldlM_cons_trans (htargets _) <| foldlM_cons_trans (hraw _) <|
      foldlM_cons_trans (htime _) rfl) ?_
    cases hq : e.queue with
    | none =>
      rw [hq] at hqueue
      cases hqueue
      rfl
    | some q =>
      rw [hq] at hqueue
      obtain ⟨fs, hfs, rfl⟩ := map_eq_some_iff.mp hqueue
      have hread := structInto_queue hfs (hp q hq)
      have hset (a : Event) : Event.set { a with queue := none } (quote "queue") (ofFields fs) =
          some { a with queue := some q.stored } := by
        simp only [Event.set, namesField_quote]
        show (queueInto none (ofFields fs)).map _ = _
        show ((structInto QueueEvent.set {} (ofFields fs)).map some).map _ = _
        rw [hread]
        rfl
      exact foldlM_cons_trans (hset { e with data := rawInto data }) rfl

theorem structInto_envelope {o : OutboxEnvelope} (h : o.json = some j) (hg : IsInt64 o.generation)
    (hp : ∀ q ∈ o.event.queue, IsInt64 q.priority) :
    ∃ e, o.event.stored = some e ∧ structInto OutboxEnvelope.set {} j = some { o with event := e } := by
  obtain ⟨event, hevent, h⟩ := bind_eq_some_iff.mp h
  cases h
  obtain ⟨e, hstored, hread⟩ := structInto_event hevent hp
  refine ⟨e, hstored, ?_⟩
  have hid (a : OutboxEnvelope) : OutboxEnvelope.set a (quote "delivery_id") (ofString o.deliveryId) =
      some { a with deliveryId := o.deliveryId } := by
    simp only [OutboxEnvelope.set, stringInto_ofString]
    rfl
  have hgeneration (a : OutboxEnvelope) : OutboxEnvelope.set a (quote "generation") (ofInt o.generation) =
      some { a with generation := o.generation } := by
    simp only [OutboxEnvelope.set, intInto_ofInt _ hg]
    rfl
  have hset (a : OutboxEnvelope) : OutboxEnvelope.set { a with event := {} } (quote "event") event =
      some { a with event := e } := by
    simp only [OutboxEnvelope.set, hread]
    rfl
  rw [structInto_ofFields]
  exact foldlM_cons_trans (hid _) <| foldlM_cons_trans (hgeneration _) <| foldlM_cons_trans (hset _) rfl

/-! ## Texts -/

theorem rawInto_ne_empty (v : Json) : rawInto v ≠ "" := by
  obtain ⟨c, cs, htext, -⟩ := text_head v
  intro h
  have := congrArg String.toList h
  simp [rawInto, htext] at this

theorem metadataField_stored (h : metadataField raw = some fs) :
    metadataField (((rawJson raw).map rawInto).getD "") = some fs := by
  unfold metadataField at h
  split at h
  next hempty =>
    cases h
    rw [hempty]
    rfl
  next =>
    obtain ⟨v, hv, rfl⟩ := map_eq_some_iff.mp h
    rw [hv]
    simp [metadataField, rawInto_ne_empty, rawJson_rawInto hv]

theorem queueField_stored {queue : Option QueueEvent} (h : queueField queue = some fs) :
    queueField (queue.map QueueEvent.stored) = some fs := by
  cases queue with
  | none => exact h
  | some q =>
    obtain ⟨qs, hqs, rfl⟩ := map_eq_some_iff.mp h
    obtain ⟨at_, hat, hqs⟩ := bind_eq_some_iff.mp hqs
    obtain ⟨ms, hms, hqs⟩ := bind_eq_some_iff.mp hqs
    cases hqs
    have hms' : metadataField q.stored.metadata = some ms := metadataField_stored hms
    have hat' : timeJson q.stored.availableAt = some at_ := hat
    simp only [queueField, map_some, QueueEvent.fields, hat', hms']
    rfl

theorem stored_eq {e' : Event} {data : Json} (h : e.stored = some e') (hdata : rawJson e.data = some data) :
    e' = { e with data := rawInto data, queue := e.queue.map QueueEvent.stored } := by
  unfold Event.stored at h
  split at h
  next hdata' =>
    cases hdata.symm.trans hdata'
    cases h
    rfl
  · cases h

theorem stored_json {e' : Event} (h : e.stored = some e') : e'.json = e.json := by
  unfold Event.stored at h
  split at h
  next hj hdata =>
    cases h
    rw [hj]
    obtain ⟨data', hdata', hj⟩ := bind_eq_some_iff.mp hj
    obtain ⟨at_, hat, hj⟩ := bind_eq_some_iff.mp hj
    obtain ⟨queue, hqueue, hj⟩ := bind_eq_some_iff.mp hj
    cases hdata.symm.trans hdata'
    have hqueue' := queueField_stored hqueue
    simp only [Event.json, rawJson_rawInto hdata, hat]
    show (queueField (e.queue.map .stored)).bind _ = _
    rw [hqueue']
    exact hj
  · cases h

/-- What a session decodes from a stored payload: the envelope, unless it nests too deep. -/
theorem decodeEnvelope_marshal {o : OutboxEnvelope} {text : String} (h : o.json = some j)
    (htext : marshal o.json = some text) (hg : IsInt64 o.generation) (hp : ∀ q ∈ o.event.queue, IsInt64 q.priority) :
    ∃ e, o.event.stored = some e ∧
      decodeEnvelope text = if j.depth ≤ maxDepth then some { o with event := e } else none := by
  obtain ⟨e, hstored, hread⟩ := structInto_envelope h hg hp
  refine ⟨e, hstored, ?_⟩
  rw [h] at htext
  cases htext
  unfold decodeEnvelope
  rw [String.toList_ofList]
  split
  next hdepth => rw [decode_text hdepth, bind_some, hread]
  next hdepth => rw [decode_text_eq_none hdepth, bind_none]

end RelayHub.Events
