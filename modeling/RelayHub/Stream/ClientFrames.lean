import RelayHub.Lib.JsonGrammar
import RelayHub.Stream.Protocol

/-! # RelayHub streams — frames of the client

`DecodeClientFrame` against the client schema that is published with the protocol.

* The scan for repeated keys lets only objects through whose fields are a finite map, so `Conforms` speaks of the
  fields of the object in any order.
* `json.Unmarshal` writes nothing into a variable for `null`. A `null` where the zero value passes the check of the
  field, `delay_ms` and `ok`, is taken for it.
* A string with half a surrogate pair reads as U+FFFD, which is a different string.

`accepted_frame_conforms_iff` says that an accepted frame is the published one, and carries the values of its fields,
exactly if it has neither. -/

namespace RelayHub.Stream

open List Json Events

/-! ## The decoder -/

/-- The types of frames a client may send. -/
inductive ClientFrameType where
  | consumerStart
  | deliveryAck
  | deliveryNack
  | deliveryProgress
  | functionResult
  | ping
  deriving DecidableEq

/-- `ClientFrame`. The fields that a type does not have keep their zero value. -/
structure ClientFrame where
  type : ClientFrameType
  protocolVersion : Int := 0
  consumer : String := ""
  topics : List String := []
  maxInFlight : Int := 0
  deliveryId : String := ""
  delayMs : Int := 0
  invocationId : String := ""
  ok : Option Bool := none
  result : Option Json := none
  error : Option Json := none

def unsupportedVersion : ProtocolError := ⟨.unsupportedVersion, "Protocol version is not supported.", false⟩

def unknownType : ProtocolError := ⟨.unknownType, "Frame type is not supported.", false⟩

def decodeConsumerStart (object : Object) : Except ProtocolError ClientFrame :=
  if only object ["type", "protocol_version", "consumer", "max_in_flight"] then
    if (intField object "protocol_version").any (fun v => decide (v ≠ version)) then .error unsupportedVersion
    else
      match intField object "protocol_version", stringField object "consumer", intField object "max_in_flight" with
      | some v, some consumer, some max =>
        if consumer = defaultConsumer ∧ 1 ≤ max ∧ max ≤ 256 then
          .ok { type := .consumerStart, protocolVersion := v, consumer, maxInFlight := max }
        else .error invalidFrame
      | _, _, _ => .error invalidFrame
  else .error invalidFrame

/-- `delivery.ack` and `delivery.progress`. -/
def decodeSettle (type : ClientFrameType) (object : Object) : Except ProtocolError ClientFrame :=
  if only object ["type", "delivery_id"] then
    match stringField object "delivery_id" with
    | some id => if bounded id 128 then .ok { type, deliveryId := id } else .error invalidFrame
    | none => .error invalidFrame
  else .error invalidFrame

def decodeNack (object : Object) : Except ProtocolError ClientFrame :=
  if only object ["type", "delivery_id", "delay_ms"] then
    match stringField object "delivery_id", intField object "delay_ms" with
    | some id, some delay =>
      if bounded id 128 ∧ 0 ≤ delay ∧ delay ≤ 300000 then
        .ok { type := .deliveryNack, deliveryId := id, delayMs := delay }
      else .error invalidFrame
    | _, _ => .error invalidFrame
  else .error invalidFrame

/-- `validHandlerError`. A `null` is the empty map. -/
def validHandlerError : Json → Bool
  | .obj value =>
    only value ["code", "message"] && decide (fieldCount value = 2) && (stringField value "code").any validFunctionName
      && (stringField value "message").any fun message => bounded message 1024
  | _ => false

/-- A `result` that was read is a valid JSON value. -/
def decodeFunctionResult (object : Object) : Except ProtocolError ClientFrame :=
  if only object ["type", "invocation_id", "ok", "result", "error"] then
    match stringField object "invocation_id", boolField object "ok" with
    | some id, some ok =>
      if bounded id 128 then
        match ok, lookup object "result", lookup object "error" with
        | true, some result, none =>
          .ok { type := .functionResult, invocationId := id, ok := some true, result := some result }
        | false, none, some error =>
          if validHandlerError error then
            .ok { type := .functionResult, invocationId := id, ok := some false, error := some error }
          else .error invalidFrame
        | _, _, _ => .error invalidFrame
      else .error invalidFrame
    | _, _ => .error invalidFrame
  else .error invalidFrame

def decodePing (object : Object) : Except ProtocolError ClientFrame :=
  if only object ["type"] then .ok { type := .ping } else .error invalidFrame

/-- The frame types of the client with the decoder of their fields. -/
def clientFrames : List (String × (Object → Except ProtocolError ClientFrame)) :=
  [("consumer.start", decodeConsumerStart), ("delivery.ack", decodeSettle .deliveryAck),
    ("delivery.progress", decodeSettle .deliveryProgress), ("delivery.nack", decodeNack),
    ("function.result", decodeFunctionResult), ("ping", decodePing)]

def decodeFields (object : Object) : Except ProtocolError ClientFrame :=
  match stringField object "type" with
  | none => .error invalidFrame
  | some typeName =>
    if typeName = "" then .error invalidFrame
    else
      match clientFrames.find? fun frame => frame.1 = typeName with
      | some frame => frame.2 object
      | none => .error unknownType

def decodeClientFrame (raw : ByteArray) : Except ProtocolError ClientFrame :=
  if maxMessageBytes < raw.size then .error ⟨.frameTooLarge, "Frame exceeds the 64 KiB limit.", false⟩
  else
    match String.fromUTF8? raw with
    | none => .error ⟨.invalidUTF8, "Frame must contain valid UTF-8.", false⟩
    | some text =>
      match decodeObject text with
      | .error e => .error e
      | .ok object => decodeFields object

/-! ## The published frames -/

/-- `opaqueID`, and the text that it is. -/
structure IsId (s : List Chunk) (id : String) : Prop where
  means : Means s id
  bounded : bounded id 128 = true

/-- The fields of each definition of the client schema, and the frame that carries their values. -/
inductive PublishedFrame : List (String × Json) → ClientFrame → Prop where
  | consumerStart {type consumer : List Chunk} {v max : Number} {n : Int} : Means type "consumer.start" →
      v.toInt? = some version → Means consumer defaultConsumer → max.toInt? = some n → 1 ≤ n → n ≤ 256 →
      PublishedFrame [("type", .str type), ("protocol_version", .num v), ("consumer", .str consumer),
        ("max_in_flight", .num max)]
        { type := .consumerStart, protocolVersion := version, consumer := defaultConsumer, maxInFlight := n }
  | deliveryAck {type delivery : List Chunk} {id : String} : Means type "delivery.ack" → IsId delivery id →
      PublishedFrame [("type", .str type), ("delivery_id", .str delivery)] { type := .deliveryAck, deliveryId := id }
  | deliveryNack {type delivery : List Chunk} {id : String} {delay : Number} {n : Int} : Means type "delivery.nack" →
      IsId delivery id → delay.toInt? = some n → 0 ≤ n → n ≤ 300000 →
      PublishedFrame [("type", .str type), ("delivery_id", .str delivery), ("delay_ms", .num delay)]
        { type := .deliveryNack, deliveryId := id, delayMs := n }
  | deliveryProgress {type delivery : List Chunk} {id : String} : Means type "delivery.progress" → IsId delivery id →
      PublishedFrame [("type", .str type), ("delivery_id", .str delivery)]
        { type := .deliveryProgress, deliveryId := id }
  | functionResult {type invocation : List Chunk} {id : String} {result : Json} : Means type "function.result" →
      IsId invocation id →
      PublishedFrame [("type", .str type), ("invocation_id", .str invocation), ("ok", .bool true), ("result", result)]
        { type := .functionResult, invocationId := id, ok := some true, result := some result }
  | functionError {type invocation code message : List Chunk} {id name : String} {error : Object} :
      Means type "function.result" → IsId invocation id →
      (fields error).Perm [("code", .str code), ("message", .str message)] →
      Means code name → validFunctionName name = true → bounded (unquote message) 1024 = true →
      PublishedFrame [("type", .str type), ("invocation_id", .str invocation), ("ok", .bool false),
        ("error", .obj error)]
        { type := .functionResult, invocationId := id, ok := some false, error := some (.obj error) }
  | ping {type : List Chunk} : Means type "ping" → PublishedFrame [("type", .str type)] { type := .ping }

/-- The object is a published frame whose values the decoded frame carries. -/
def Conforms (object : Object) (frame : ClientFrame) : Prop := ∃ fs, (fields object).Perm fs ∧ PublishedFrame fs frame

/-- Two JSON values with the same meaning: the same text, the same integer or the same literal. -/
inductive SameValue : Json → Json → Prop where
  | refl (v : Json) : SameValue v v
  | str {s s' : List Chunk} : units s = units s' → SameValue (.str s) (.str s')
  | int {n n' : Number} {i : Int} : n.toInt? = some i → n'.toInt? = some i → SameValue (.num n) (.num n')

/-- Two objects with the same fields, in any order, and the same values in them. -/
def SameFields (object object' : Object) : Prop :=
  ∃ fs fs', (fields object).Perm fs ∧ (fields object').Perm fs' ∧
    List.Forall₂ (fun f f' => f.1 = f'.1 ∧ SameValue f.2 f'.2) fs fs'

variable {fs : List (String × Json)} {object : Object} {name : String} {frame : ClientFrame}

theorem PublishedFrame.same {fs' : List (String × Json)} (h : PublishedFrame fs frame)
    (h' : PublishedFrame fs' frame) : List.Forall₂ (fun f f' => f.1 = f'.1 ∧ SameValue f.2 f'.2) fs fs' := by
  have htext : ∀ {s s' : List Chunk} {text : String}, Means s text → Means s' text → SameValue (.str s) (.str s') :=
    fun h h' => .str (h.units_eq h')
  cases h with
  | consumerStart htype hversion hconsumer hmax =>
    cases h' with
    | consumerStart htype' hversion' hconsumer' hmax' =>
      exact .cons ⟨rfl, htext htype htype'⟩ (.cons ⟨rfl, .int hversion hversion'⟩
        (.cons ⟨rfl, htext hconsumer hconsumer'⟩ (.cons ⟨rfl, .int hmax hmax'⟩ .nil)))
  | deliveryAck htype hid =>
    cases h' with
    | deliveryAck htype' hid' => exact .cons ⟨rfl, htext htype htype'⟩ (.cons ⟨rfl, htext hid.means hid'.means⟩ .nil)
  | deliveryProgress htype hid =>
    cases h' with
    | deliveryProgress htype' hid' =>
      exact .cons ⟨rfl, htext htype htype'⟩ (.cons ⟨rfl, htext hid.means hid'.means⟩ .nil)
  | deliveryNack htype hid hdelay =>
    cases h' with
    | deliveryNack htype' hid' hdelay' =>
      exact .cons ⟨rfl, htext htype htype'⟩ (.cons ⟨rfl, htext hid.means hid'.means⟩
        (.cons ⟨rfl, .int hdelay hdelay'⟩ .nil))
  | functionResult htype hid =>
    cases h' with
    | functionResult htype' hid' =>
      exact .cons ⟨rfl, htext htype htype'⟩ (.cons ⟨rfl, htext hid.means hid'.means⟩
        (.cons ⟨rfl, .refl _⟩ (.cons ⟨rfl, .refl _⟩ .nil)))
  | functionError htype hid =>
    cases h' with
    | functionError htype' hid' =>
      exact .cons ⟨rfl, htext htype htype'⟩ (.cons ⟨rfl, htext hid.means hid'.means⟩
        (.cons ⟨rfl, .refl _⟩ (.cons ⟨rfl, .refl _⟩ .nil)))
  | ping htype =>
    cases h' with
    | ping htype' => exact .cons ⟨rfl, htext htype htype'⟩ .nil

/-! ## What the decoder accepts -/

theorem only_eq_true {names : List String} (h : only object names = true) :
    ∀ name ∈ (fields object).map Prod.fst, name ∈ names := by
  intro name hname
  obtain ⟨f, hf, rfl⟩ := mem_map.mp hname
  obtain ⟨m, hm, rfl⟩ := mem_map.mp hf
  simpa using all_eq_true.mp h m hm

theorem stringField_str {text : String} (h : stringField object name = some text) (htext : text ≠ "") :
    ∃ s, lookup object name = some (.str s) ∧ unquote s = text := by
  obtain ⟨v, hv, hread⟩ := Option.bind_eq_some_iff.mp h
  cases v with
  | str s => exact ⟨s, hv, Option.some.inj hread⟩
  | null => exact absurd (Option.some.inj hread).symm htext
  | _ => cases hread

theorem intField_num {i : Int} (h : intField object name = some i) (hnull : lookup object name ≠ some .null) :
    ∃ n, lookup object name = some (.num n) ∧ n.toInt? = some i := by
  obtain ⟨v, hv, hread⟩ := Option.bind_eq_some_iff.mp h
  cases v with
  | num n => exact ⟨n, hv, hread⟩
  | null => exact absurd hv hnull
  | _ => cases hread

theorem intField_num_of_ne_zero {i : Int} (h : intField object name = some i) (hi : i ≠ 0) :
    ∃ n, lookup object name = some (.num n) ∧ n.toInt? = some i := by
  refine intField_num h fun hnull => hi ?_
  rw [intField, hnull] at h
  exact (Option.some.inj h).symm

theorem boolField_bool {b : Bool} (h : boolField object name = some b) (hnull : lookup object name ≠ some .null) :
    lookup object name = some (.bool b) := by
  obtain ⟨v, hv, hread⟩ := Option.bind_eq_some_iff.mp h
  cases v with
  | bool => rw [hv, Option.some.inj hread]
  | null => exact absurd hv hnull
  | _ => cases hread

theorem bounded_ne_empty {text : String} {max : Nat} (h : bounded text max = true) : text ≠ "" := by
  rw [bounded, Bool.and_eq_true, decide_eq_true_eq] at h
  exact h.1

theorem decodeConsumerStart_ok (h : decodeConsumerStart object = .ok frame) :
    only object ["type", "protocol_version", "consumer", "max_in_flight"] = true ∧
      ∃ max, intField object "protocol_version" = some version ∧ stringField object "consumer" = some defaultConsumer ∧
        intField object "max_in_flight" = some max ∧ (1 ≤ max ∧ max ≤ 256) ∧
        frame =
          { type := .consumerStart, protocolVersion := version, consumer := defaultConsumer, maxInFlight := max } := by
  unfold decodeConsumerStart at h
  split at h
  next honly =>
    split at h
    · cases h
    next hversion =>
    split at h
    next v consumer max hv hconsumer hmax =>
      split at h
      next hchecks =>
        obtain ⟨rfl, hrange⟩ := hchecks
        obtain rfl : v = version := by simpa [hv] using hversion
        exact ⟨honly, max, hv, hconsumer, hmax, hrange, (Except.ok.inj h).symm⟩
      · cases h
    · cases h
  · cases h

theorem decodeSettle_ok {type : ClientFrameType} (h : decodeSettle type object = .ok frame) :
    only object ["type", "delivery_id"] = true ∧
      ∃ id, stringField object "delivery_id" = some id ∧ bounded id 128 = true ∧
        frame = { type, deliveryId := id } := by
  unfold decodeSettle at h
  split at h
  next honly =>
    split at h
    next id hid =>
      split at h
      next hbounded => exact ⟨honly, id, hid, hbounded, (Except.ok.inj h).symm⟩
      · cases h
    · cases h
  · cases h

theorem decodeNack_ok (h : decodeNack object = .ok frame) : only object ["type", "delivery_id", "delay_ms"] = true ∧
      ∃ id delay, stringField object "delivery_id" = some id ∧ intField object "delay_ms" = some delay ∧
        bounded id 128 = true ∧ (0 ≤ delay ∧ delay ≤ 300000) ∧
        frame = { type := .deliveryNack, deliveryId := id, delayMs := delay } := by
  unfold decodeNack at h
  split at h
  next honly =>
    split at h
    next id delay hid hdelay =>
      split at h
      next hchecks => exact ⟨honly, id, delay, hid, hdelay, hchecks.1, hchecks.2, (Except.ok.inj h).symm⟩
      · cases h
    · cases h
  · cases h

theorem decodeFunctionResult_ok (h : decodeFunctionResult object = .ok frame) :
    only object ["type", "invocation_id", "ok", "result", "error"] = true ∧
      ∃ id, stringField object "invocation_id" = some id ∧ bounded id 128 = true ∧
        ((∃ result, boolField object "ok" = some true ∧ lookup object "result" = some result ∧
            lookup object "error" = none ∧
            frame = { type := .functionResult, invocationId := id, ok := some true, result := some result }) ∨
          ∃ error, boolField object "ok" = some false ∧ lookup object "result" = none ∧
            lookup object "error" = some error ∧ validHandlerError error = true ∧
            frame = { type := .functionResult, invocationId := id, ok := some false, error := some error }) := by
  unfold decodeFunctionResult at h
  split at h
  next honly =>
    split at h
    next id ok hid hok =>
      split at h
      next hbounded =>
        refine ⟨honly, id, hid, hbounded, ?_⟩
        split at h
        next result hresult herror => exact .inl ⟨result, hok, hresult, herror, (Except.ok.inj h).symm⟩
        next error hresult herror =>
          split at h
          next hvalid => exact .inr ⟨error, hok, hresult, herror, hvalid, (Except.ok.inj h).symm⟩
          · cases h
        · cases h
      · cases h
    · cases h
  · cases h

theorem decodePing_ok (h : decodePing object = .ok frame) : only object ["type"] = true ∧
    frame = { type := .ping } := by
  unfold decodePing at h
  split at h
  next honly => exact ⟨honly, (Except.ok.inj h).symm⟩
  · cases h

theorem decodeFields_ok (h : decodeFields object = .ok frame) :
    ∃ decoder ∈ clientFrames, stringField object "type" = some decoder.1 ∧ decoder.2 object = .ok frame := by
  unfold decodeFields at h
  split at h
  · cases h
  next typeName htype =>
  split at h
  · cases h
  split at h
  next decoder hfind =>
    have hname : decoder.1 = typeName := by simpa using find?_some hfind
    exact ⟨decoder, mem_of_find?_eq_some hfind, by rw [htype, hname], h⟩
  · cases h

/-! ## Conformance -/

/-- The frame has no `null` that is taken for a zero value, and no identifier with half a surrogate pair. -/
structure Exact (object : Object) : Prop where
  delay : lookup object "delay_ms" ≠ some .null
  ok : lookup object "ok" ≠ some .null
  ids : ∀ name ∈ ["delivery_id", "invocation_id"], ∀ s, lookup object name = some (.str s) → paired s = true

section Conformance

theorem Exact.isId (h : Exact object) {id : String} (hname : name ∈ ["delivery_id", "invocation_id"])
    (hid : stringField object name = some id) (hbounded : bounded id 128 = true) :
    ∃ s, lookup object name = some (.str s) ∧ IsId s id := by
  obtain ⟨s, hs, rfl⟩ := stringField_str hid (bounded_ne_empty hbounded)
  exact ⟨s, hs, means_unquote_iff.mpr (h.ids name hname s hs), hbounded⟩

theorem means_literal {text : String} (h : stringField object name = some text) (htext : text ≠ "")
    (hmem : '\uFFFD' ∉ text.toList) : ∃ s, lookup object name = some (.str s) ∧ Means s text := by
  obtain ⟨s, hs, hread⟩ := stringField_str h htext
  exact ⟨s, hs, means_of_unquote hread hmem⟩

theorem not_mem_of_validFunctionName (h : validFunctionName name = true) : '\uFFFD' ∉ name.toList := by
  unfold validFunctionName at h
  split at h
  · cases h
  next hname =>
  rw [hname]
  intro hmem
  simp only [Bool.and_eq_true, all_eq_true] at h
  rcases mem_cons.mp hmem with rfl | hmem
  · exact absurd h.1.1 (by decide)
  · exact absurd (h.2 _ hmem) (by decide)

theorem validHandlerError_fields {error : Json} (h : validHandlerError error = true)
    (hkeys : repeatsKey error = false) :
    ∃ e code message name, error = .obj e ∧ (fields e).Perm [("code", .str code), ("message", .str message)] ∧
      Means code name ∧ validFunctionName name = true ∧ bounded (unquote message) 1024 = true := by
  unfold validHandlerError at h
  split at h
  next e =>
    simp only [Bool.and_eq_true, Option.any_eq_true] at h
    obtain ⟨⟨⟨honly, -⟩, name, hname, hvalid⟩, text, htext, hbounded⟩ := h
    have hne : name ≠ "" := by
      rintro rfl
      exact absurd hvalid (by decide)
    obtain ⟨code, hcode, hmeans⟩ := means_literal hname hne (not_mem_of_validFunctionName hvalid)
    obtain ⟨message, hmessage, rfl⟩ := stringField_str htext (bounded_ne_empty hbounded)
    refine ⟨e, code, message, name, rfl, ?_, hmeans, hvalid, hbounded⟩
    refine fields_perm (membersRepeat_eq_false hkeys).1 (by simp) (only_eq_true honly) fun f hf => ?_
    simp only [mem_cons, not_mem_nil, or_false] at hf
    rcases hf with rfl | rfl
    · exact hcode
    · exact hmessage
  · cases h

variable {type : List Chunk} {fs : List (String × Json)}

theorem conforms_of_fields (hpublished : PublishedFrame fs frame) (hkeys : ((fields object).map Prod.fst).Nodup)
    (hfs : (fs.map Prod.fst).Nodup) (honly : ∀ name ∈ (fields object).map Prod.fst, name ∈ fs.map Prod.fst)
    (hlookup : fs.Forall fun f => lookup object f.1 = some f.2) : Conforms object frame :=
  ⟨fs, fields_perm hkeys hfs honly (forall_iff_forall_mem.mp hlookup), hpublished⟩

/-- The field that a function result does not have is not among its fields. -/
theorem only_without {names names' : List String} (hkeys : ((fields object).map Prod.fst).Nodup)
    (h : only object names = true) (hname : lookup object name = none) (hnames : names ⊆ name :: names') :
    ∀ name' ∈ (fields object).map Prod.fst, name' ∈ names' := by
  intro name' hmem
  rcases mem_cons.mp (hnames (only_eq_true h name' hmem)) with rfl | hmem'
  · obtain ⟨⟨_, v⟩, hf, rfl⟩ := mem_map.mp hmem
    rw [(lookup_eq_some_iff hkeys).mpr hf] at hname
    cases hname
  · exact hmem'

section Frames

variable (hkeys : ((fields object).map Prod.fst).Nodup) (htype : lookup object "type" = some (.str type))

include hkeys htype

theorem decodeConsumerStart_conforms (hmeans : Means type "consumer.start")
    (h : decodeConsumerStart object = .ok frame) : Conforms object frame := by
  obtain ⟨honly, max, hversion, hconsumer, hmax, hrange, rfl⟩ := decodeConsumerStart_ok h
  obtain ⟨v, hv, hvint⟩ := intField_num_of_ne_zero hversion (by decide)
  obtain ⟨c, hc, hcmeans⟩ := means_literal hconsumer (by decide) (by decide)
  obtain ⟨n, hn, hnint⟩ := intField_num_of_ne_zero hmax (by omega)
  exact conforms_of_fields (.consumerStart hmeans hvint hcmeans hnint hrange.1 hrange.2) hkeys (by simp)
    (only_eq_true honly) ⟨htype, hv, hc, hn⟩

theorem decodeSettle_conforms {t : ClientFrameType} (h : decodeSettle t object = .ok frame) (hexact : Exact object)
    (hpublished : ∀ {delivery : List Chunk} {id : String}, IsId delivery id →
      PublishedFrame [("type", .str type), ("delivery_id", .str delivery)] { type := t, deliveryId := id }) :
    Conforms object frame := by
  obtain ⟨honly, id, hid, hbounded, rfl⟩ := decodeSettle_ok h
  obtain ⟨s, hs, hisId⟩ := hexact.isId (by simp) hid hbounded
  exact conforms_of_fields (hpublished hisId) hkeys (by simp) (only_eq_true honly) ⟨htype, hs⟩

theorem decodeNack_conforms (hmeans : Means type "delivery.nack")
    (h : decodeNack object = .ok frame) (hexact : Exact object) : Conforms object frame := by
  obtain ⟨honly, id, delay, hid, hdelay, hbounded, hrange, rfl⟩ := decodeNack_ok h
  obtain ⟨s, hs, hisId⟩ := hexact.isId (by simp) hid hbounded
  obtain ⟨n, hn, hnint⟩ := intField_num hdelay hexact.delay
  exact conforms_of_fields (.deliveryNack hmeans hisId hnint hrange.1 hrange.2) hkeys (by simp) (only_eq_true honly)
    ⟨htype, hs, hn⟩

theorem decodeFunctionResult_conforms (hrepeats : repeatsKey (.obj object) = false)
    (hmeans : Means type "function.result")
    (h : decodeFunctionResult object = .ok frame) (hexact : Exact object) : Conforms object frame := by
  obtain ⟨-, -, hvalues⟩ := membersRepeat_eq_false hrepeats
  obtain ⟨honly, id, hid, hbounded, hcase⟩ := decodeFunctionResult_ok h
  obtain ⟨s, hs, hisId⟩ := hexact.isId (by simp) hid hbounded
  rcases hcase with ⟨result, hok, hresult, herror, rfl⟩ | ⟨error, hok, hresult, herror, hvalid, rfl⟩
  · have hbool := boolField_bool hok hexact.ok
    exact conforms_of_fields (.functionResult hmeans hisId) hkeys (by simp)
      (only_without hkeys honly herror (by simp)) ⟨htype, hs, hbool, hresult⟩
  · have hbool := boolField_bool hok hexact.ok
    obtain ⟨m, hm, hmv⟩ := mem_map.mp ((lookup_eq_some_iff hkeys).mp herror)
    obtain ⟨-, rfl⟩ := Prod.mk.inj hmv
    obtain ⟨e, code, message, name, herr, hperm, hcode, hname, hmessage⟩ :=
      validHandlerError_fields hvalid (hvalues m hm)
    rw [herr] at herror ⊢
    exact conforms_of_fields (.functionError hmeans hisId hperm hcode hname hmessage) hkeys (by simp)
      (only_without hkeys honly hresult (by simp)) ⟨htype, hs, hbool, herror⟩

theorem decodePing_conforms (hmeans : Means type "ping")
    (h : decodePing object = .ok frame) : Conforms object frame := by
  obtain ⟨honly, rfl⟩ := decodePing_ok h
  exact conforms_of_fields (.ping hmeans) hkeys (by simp) (only_eq_true honly) htype

end Frames

theorem conforms_of_exact (hkeys : repeatsKey (.obj object) = false) (h : decodeFields object = .ok frame)
    (hexact : Exact object) : Conforms object frame := by
  have hnodup := (membersRepeat_eq_false hkeys).1
  obtain ⟨decoder, hmem, htype, hdecode⟩ := decodeFields_ok h
  simp only [clientFrames, mem_cons, not_mem_nil, or_false] at hmem
  rcases hmem with rfl | rfl | rfl | rfl | rfl | rfl <;>
    obtain ⟨type, htype, hmeans⟩ := means_literal htype (by decide) (by decide)
  · exact decodeConsumerStart_conforms hnodup htype hmeans hdecode
  · exact decodeSettle_conforms hnodup htype hdecode hexact (.deliveryAck hmeans)
  · exact decodeSettle_conforms hnodup htype hdecode hexact (.deliveryProgress hmeans)
  · exact decodeNack_conforms hnodup htype hmeans hdecode hexact
  · exact decodeFunctionResult_conforms hnodup htype hkeys hmeans hdecode hexact
  · exact decodePing_conforms hnodup htype hmeans hdecode

theorem decodeFields_ids {s : List Chunk} (h : decodeFields object = .ok frame) :
    (lookup object "delivery_id" = some (.str s) → frame.deliveryId = unquote s) ∧
      (lookup object "invocation_id" = some (.str s) → frame.invocationId = unquote s) := by
  have hread : ∀ {name id : String}, stringField object name = some id → lookup object name = some (.str s) →
      id = unquote s := by
    intro name id hid hs
    rw [stringField, hs] at hid
    exact (Option.some.inj hid).symm
  have hno : ∀ {name : String} {names : List String}, only object names = true → name ∉ names →
      lookup object name ≠ some (.str s) := by
    intro name names honly hname hs
    obtain ⟨m, hm, -⟩ := Option.map_eq_some_iff.mp hs
    have hkey : unquote m.1 = name := by simpa using find?_some hm
    refine hname (hkey ▸ only_eq_true honly _ ?_)
    exact mem_map.mpr ⟨_, mem_map_of_mem (mem_reverse.mp (mem_of_find?_eq_some hm)), rfl⟩
  obtain ⟨decoder, hmem, -, hdecode⟩ := decodeFields_ok h
  simp only [clientFrames, mem_cons, not_mem_nil, or_false] at hmem
  rcases hmem with rfl | rfl | rfl | rfl | rfl | rfl
  · obtain ⟨honly, -⟩ := decodeConsumerStart_ok hdecode
    exact ⟨fun hs => absurd hs (hno honly (by simp)), fun hs => absurd hs (hno honly (by simp))⟩
  · obtain ⟨honly, id, hid, -, rfl⟩ := decodeSettle_ok hdecode
    exact ⟨hread hid, fun hs => absurd hs (hno honly (by simp))⟩
  · obtain ⟨honly, id, hid, -, rfl⟩ := decodeSettle_ok hdecode
    exact ⟨hread hid, fun hs => absurd hs (hno honly (by simp))⟩
  · obtain ⟨honly, id, delay, hid, -, -, -, rfl⟩ := decodeNack_ok hdecode
    exact ⟨hread hid, fun hs => absurd hs (hno honly (by simp))⟩
  · obtain ⟨honly, id, hid, -, hcase⟩ := decodeFunctionResult_ok hdecode
    refine ⟨fun hs => absurd hs (hno honly (by simp)), fun hs => ?_⟩
    rcases hcase with ⟨_, _, _, _, rfl⟩ | ⟨_, _, _, _, _, rfl⟩
    · exact hread hid hs
    · exact hread hid hs
  · obtain ⟨honly, -⟩ := decodePing_ok hdecode
    exact ⟨fun hs => absurd hs (hno honly (by simp)), fun hs => absurd hs (hno honly (by simp))⟩

theorem PublishedFrame.ids (h : PublishedFrame fs frame) {s : List Chunk} :
    (("delivery_id", .str s) ∈ fs → Means s frame.deliveryId) ∧
      (("invocation_id", .str s) ∈ fs → Means s frame.invocationId) := by
  cases h with
  | deliveryAck | deliveryProgress | deliveryNack | functionResult | functionError =>
    grind [IsId]
  | consumerStart | ping => simp

theorem exact_of_conforms (hkeys : ((fields object).map Prod.fst).Nodup) (h : decodeFields object = .ok frame)
    (hconforms : Conforms object frame) : Exact object := by
  obtain ⟨fs, hperm, hpublished⟩ := hconforms
  have hmem : ∀ {name : String} {v : Json}, lookup object name = some v → (name, v) ∈ fs :=
    fun hv => hperm.mem_iff.mp ((lookup_eq_some_iff hkeys).mp hv)
  refine ⟨fun hnull => ?_, fun hnull => ?_, fun name hname s hs => means_unquote_iff.mp ?_⟩
  · have := hmem hnull
    cases hpublished <;> simp at this
  · have := hmem hnull
    cases hpublished <;> simp at this
  · rcases mem_cons.mp hname with rfl | hname
    · rw [← (decodeFields_ids h).1 hs]
      exact hpublished.ids.1 (hmem hs)
    · obtain rfl := mem_singleton.mp hname
      rw [← (decodeFields_ids h).2 hs]
      exact hpublished.ids.2 (hmem hs)

end Conformance

/-! ## Accepted frames -/

/-- The object that the bytes are the text of. -/
def Reads (raw : ByteArray) (object : Object) : Prop :=
  ∃ text, String.fromUTF8? raw = some text ∧ parse true text.toList = .ok (.obj object)

/-- The bytes are one JSON object in UTF-8 with no key twice, the accepted frame. -/
structure IsFrame (raw : ByteArray) (object : Object) : Prop where
  size : raw.size ≤ maxMessageBytes
  text : ∃ text, String.fromUTF8? raw = some text ∧ IsText text.toList (.obj object)
  keys : repeatsKey (.obj object) = false

theorem decodeClientFrame_ok {raw : ByteArray} (h : decodeClientFrame raw = .ok frame) :
    ∃ object, Reads raw object ∧ IsFrame raw object ∧ decodeFields object = .ok frame := by
  unfold decodeClientFrame at h
  split at h
  · cases h
  next hsize =>
  split at h
  · cases h
  next text htext =>
  split at h
  · cases h
  next object hobject =>
  have hparse : parse true text.toList = .ok (.obj object) := by
    unfold decodeObject at hobject
    split at hobject
    · cases hobject
    split at hobject
    · cases hobject
    · cases hobject
    next hv =>
    split at hobject
    next ms =>
      split at hobject
      · rw [hv, Except.ok.inj hobject]
      · cases hobject
    · cases hobject
  obtain ⟨htextOf, hkeys⟩ := parse_sound hparse
  exact ⟨object, ⟨text, htext, hparse⟩, ⟨Nat.le_of_not_lt hsize, ⟨text, htext, htextOf⟩, hkeys rfl⟩, h⟩

theorem Reads.unique {raw : ByteArray} {object' : Object} (h : Reads raw object) (h' : Reads raw object') :
    object = object' := by
  obtain ⟨text, htext, hparse⟩ := h
  obtain ⟨text', htext', hparse'⟩ := h'
  obtain rfl := Option.some.inj (htext.symm.trans htext')
  exact Json.obj.inj (Except.ok.inj (hparse.symm.trans hparse'))

/-- **An accepted frame is a frame of the published schema, and the decoded frame carries its values, if and only if it
is exact; exact frames that decode to the same frame have the same values in the same fields.** -/
theorem accepted_frame_conforms_iff (raw : ByteArray) (frame : ClientFrame) (h : decodeClientFrame raw = .ok frame) :
    ∃ object, Reads raw object ∧ IsFrame raw object ∧ (Conforms object frame ↔ Exact object) ∧
      ∀ raw' object', decodeClientFrame raw' = .ok frame → Reads raw' object' → Exact object → Exact object' →
        SameFields object object' := by
  obtain ⟨object, hreads, hframe, hfields⟩ := decodeClientFrame_ok h
  have hnodup := (membersRepeat_eq_false hframe.keys).1
  refine ⟨object, hreads, hframe, ⟨exact_of_conforms hnodup hfields, conforms_of_exact hframe.keys hfields⟩, ?_⟩
  intro raw' object' h' hreads' hexact hexact'
  obtain ⟨object'', hreads'', hframe', hfields'⟩ := decodeClientFrame_ok h'
  obtain rfl := hreads''.unique hreads'
  obtain ⟨fs, hperm, hpublished⟩ := conforms_of_exact hframe.keys hfields hexact
  obtain ⟨fs', hperm', hpublished'⟩ := conforms_of_exact hframe'.keys hfields' hexact'
  exact ⟨fs, fs', hperm, hperm', hpublished.same hpublished'⟩

/-- The bytes of an object with these fields. -/
def wire (fs : List (String × Json)) : ByteArray := (String.ofList (ofFields fs).text).toUTF8

theorem wire_reads (hnames : (fs.map Prod.fst).Nodup) (hsize : (ofFields fs).size ≤ maxMessageBytes)
    (hkeys : ∀ f ∈ fs, f.2.repeatsKey = false) (hdepth : ∀ f ∈ fs, f.2.depth < maxDepth) :
    Reads (wire fs) (keyed fs) ∧ decodeClientFrame (wire fs) = decodeFields (keyed fs) := by
  have htext : String.fromUTF8? (wire fs) = some (.ofList (ofFields fs).text) :=
    dif_pos (String.ofList (ofFields fs).text).isValidUTF8
  have hbytes : (wire fs).size = (ofFields fs).size := String.utf8ByteSize_ofList _
  refine ⟨⟨_, htext, ?_⟩, ?_⟩
  · have hany : (fs.any fun f => f.2.repeatsKey) = false := any_eq_false.mpr fun f hf => by simp [hkeys f hf]
    rw [String.toList_ofList, parse_text, repeatsKey_ofFields hnames, hany]
    rfl
  · have hobject := (decodeObject_ofFields hnames _).mpr ⟨hsize, hkeys, hdepth, rfl⟩
    rw [decodeClientFrame, if_neg (by omega), htext]
    simp only [hobject]

/-- A negative acknowledgement. -/
def nackFields (id delay : Json) : List (String × Json) :=
  [("type", ofString "delivery.nack"), ("delivery_id", id), ("delay_ms", delay)]

section Nack

variable {id delay : Json}

theorem nackFields_reads (hsize : (ofFields (nackFields id delay)).size ≤ maxMessageBytes)
    (hkeys : id.repeatsKey = false ∧ delay.repeatsKey = false) (hdepth : id.depth = 0 ∧ delay.depth = 0) :
    Reads (wire (nackFields id delay)) (keyed (nackFields id delay)) ∧
      decodeClientFrame (wire (nackFields id delay)) = decodeFields (keyed (nackFields id delay)) := by
  refine wire_reads (by simp [nackFields]) hsize ?_ ?_
  · simp [nackFields, hkeys, ofString, repeatsKey]
  · simp [nackFields, hdepth, ofString, depth, maxDepth]

/-- What `json.Unmarshal` makes of the fields decides the frame. -/
theorem decodeFields_nackFields {text : String} {n : Int} (hid : unmarshalString id = some text)
    (hbounded : bounded text 128 = true) (hdelay : unmarshalInt delay = some n) (hrange : 0 ≤ n ∧ n ≤ 300000) :
    decodeFields (keyed (nackFields id delay)) = .ok { type := .deliveryNack, deliveryId := text, delayMs := n } := by
  have htype : stringField (keyed (nackFields id delay)) "type" = some "delivery.nack" := by
    rw [stringField, lookup_ofFields]
    simp [nackFields]
  have hid' : stringField (keyed (nackFields id delay)) "delivery_id" = some text := by
    rw [stringField, lookup_ofFields]
    simp [nackFields, hid]
  have hdelay' : intField (keyed (nackFields id delay)) "delay_ms" = some n := by
    rw [intField, lookup_ofFields]
    simp [nackFields, hdelay]
  have honly : only (keyed (nackFields id delay)) ["type", "delivery_id", "delay_ms"] = true := by
    rw [only_fields]
    simp [nackFields]
  simp [decodeFields, htype, clientFrames, decodeNack, honly, hid', hdelay', hbounded, hrange]

end Nack

theorem decode_nack_zero : decodeClientFrame (wire (nackFields (ofString "dlv_1") (ofInt 0))) =
    .ok { type := .deliveryNack, deliveryId := "dlv_1" } := by
  refine (nackFields_reads (by decide +kernel) ⟨rfl, rfl⟩ ⟨rfl, rfl⟩).2.trans ?_
  exact decodeFields_nackFields (unmarshalString_ofString _) (by decide) (unmarshalInt_ofInt (by decide)) (by decide)

theorem accepted_frame_conforms_iff_nack :
    decodeClientFrame (wire (nackFields (ofString "dlv_1") (ofInt 0))) =
      .ok { type := .deliveryNack, deliveryId := "dlv_1" } ∧
      ∃ object, Reads (wire (nackFields (ofString "dlv_1") (ofInt 0))) object ∧
        (Conforms object { type := .deliveryNack, deliveryId := "dlv_1" } ↔ Exact object) := by
  obtain ⟨object, hreads, -, hiff, -⟩ := accepted_frame_conforms_iff _ _ decode_nack_zero
  exact ⟨decode_nack_zero, object, hreads, hiff⟩

/-- **A delay that is `null` is accepted and taken for zero; two identifiers that differ in half a surrogate pair decode
to the same frame.** -/
theorem null_delay_and_half_pair_accepted :
    decodeClientFrame (wire (nackFields (ofString "dlv_1") .null)) =
      .ok { type := .deliveryNack, deliveryId := "dlv_1" } ∧
      (¬ ∃ object, Reads (wire (nackFields (ofString "dlv_1") .null)) object ∧
        Conforms object { type := .deliveryNack, deliveryId := "dlv_1" }) ∧
      decodeClientFrame (wire (nackFields (ofString "dlv_1") .null)) =
        decodeClientFrame (wire (nackFields (ofString "dlv_1") (ofInt 0))) ∧
      decodeClientFrame (wire (nackFields (.str [uniOf 0xD800]) (ofInt 0))) =
        .ok { type := .deliveryNack, deliveryId := "\uFFFD" } ∧
      decodeClientFrame (wire (nackFields (.str [uniOf 0xDFFF]) (ofInt 0))) =
        .ok { type := .deliveryNack, deliveryId := "\uFFFD" } := by
  have hnull := @nackFields_reads (ofString "dlv_1") .null (by decide +kernel) ⟨rfl, rfl⟩ ⟨rfl, rfl⟩
  have hdecode := hnull.2.trans
    (decodeFields_nackFields (n := 0) (unmarshalString_ofString _) (by decide) rfl (by decide))
  have hhalf : ∀ n, n = 0xD800 ∨ n = 0xDFFF → decodeClientFrame (wire (nackFields (.str [uniOf n]) (ofInt 0))) =
      .ok { type := .deliveryNack, deliveryId := "\uFFFD" } := by
    rintro n (rfl | rfl)
    · refine (nackFields_reads (by decide +kernel) ⟨rfl, rfl⟩ ⟨rfl, rfl⟩).2.trans ?_
      exact decodeFields_nackFields (congrArg some (by decide +kernel)) (by decide +kernel)
        (unmarshalInt_ofInt (by decide)) (by decide)
    · refine (nackFields_reads (by decide +kernel) ⟨rfl, rfl⟩ ⟨rfl, rfl⟩).2.trans ?_
      exact decodeFields_nackFields (congrArg some (by decide +kernel)) (by decide +kernel)
        (unmarshalInt_ofInt (by decide)) (by decide)
  refine ⟨hdecode, ?_, hdecode.trans decode_nack_zero.symm, hhalf _ (.inl rfl), hhalf _ (.inr rfl)⟩
  rintro ⟨object, hreads, fs, hperm, hpublished⟩
  obtain rfl := hnull.1.unique hreads
  have hmem : ("delay_ms", .null) ∈ fs := hperm.mem_iff.mp (by simp [fields, nackFields])
  cases hpublished with
  | deliveryNack => simp at hmem

end RelayHub.Stream
