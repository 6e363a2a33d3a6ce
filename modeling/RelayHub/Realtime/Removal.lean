import Mathlib.Data.Int.Log
import Mathlib.Data.Rat.Floor
import RelayHub.Realtime.Redis

/-! # RelayHub realtime — removed actions

`removeRealtimeActionScript` decodes the record of an action with cjson, marks it and encodes it again. cjson reads
a number as a double and writes it with 14 significant digits. It writes an empty table as an object. -/

namespace RelayHub.Realtime

/-- A JSON value. The members of an object are in the order of their keys. -/
inductive Value where
  | null
  | bool (b : Bool)
  | num (q : ℚ)
  | str (s : String)
  | arr (items : List Value)
  | obj (members : List (String × Value))

/-! ## Numbers -/

def roundHalfEven (q : ℚ) : ℤ :=
  if q - ⌊q⌋ < 1 / 2 ∨ q - ⌊q⌋ = 1 / 2 ∧ ⌊q⌋ % 2 = 0 then ⌊q⌋ else ⌊q⌋ + 1

/-- The multiple of `unit` next to `q`. -/
def onGrid (unit q : ℚ) : ℚ := roundHalfEven (q / unit) * unit

/-- The double next to `q`, or `none` for an infinity. -/
def double (q : ℚ) : Option ℚ :=
  let d := onGrid (2 ^ (max (Int.log 2 |q|) (-1022) - 52)) q
  if |d| < 2 ^ 1024 then some d else none

/-- `%.14g`. -/
def printed (q : ℚ) : ℚ := onGrid (10 ^ (Int.log 10 |q| - 13)) q

/-! ## Values -/

mutual

/-- `cjson.encode(cjson.decode(v))`, which fails on an infinity. -/
def Value.cjson : Value → Option Value
  | .num q => (double q).map fun d => .num (printed d)
  | .arr [] => some (.obj [])
  | .arr items => (cjsonItems items).map .arr
  | .obj members => (cjsonMembers members).map .obj
  | v => some v

def Value.cjsonItems : List Value → Option (List Value)
  | [] => some []
  | v :: vs => do return (← v.cjson) :: (← cjsonItems vs)

def Value.cjsonMembers : List (String × Value) → Option (List (String × Value))
  | [] => some []
  | (k, v) :: ms => do return (k, ← v.cjson) :: (← cjsonMembers ms)

end

mutual

/-- There is no empty array in the value, and its numbers are doubles of 14 digits. -/
def Value.Stable : Value → Prop
  | .num q => (double q).map printed = some q
  | .arr items => items ≠ [] ∧ StableItems items
  | .obj members => StableMembers members
  | _ => True

def Value.StableItems : List Value → Prop
  | [] => True
  | v :: vs => v.Stable ∧ StableItems vs

def Value.StableMembers : List (String × Value) → Prop
  | [] => True
  | (_, v) :: ms => v.Stable ∧ StableMembers ms

end

mutual

theorem Value.cjson_eq_iff : ∀ v : Value, v.cjson = some v ↔ v.Stable
  | .null | .bool _ | .str _ => by simp [cjson, Stable]
  | .num q => by cases h : double q <;> simp [cjson, Stable, h]
  | .arr [] => by simp [cjson, Stable]
  | .arr (v :: vs) => by simp [cjson, Stable, cjsonItems_eq_iff (v :: vs)]
  | .obj members => by simp [cjson, Stable, cjsonMembers_eq_iff members]

theorem Value.cjsonItems_eq_iff : ∀ items : List Value, cjsonItems items = some items ↔ StableItems items
  | [] => by simp [cjsonItems, StableItems]
  | v :: vs => by
    rw [StableItems, ← cjson_eq_iff v, ← cjsonItems_eq_iff vs, cjsonItems]
    cases v.cjson <;> cases cjsonItems vs <;> simp

theorem Value.cjsonMembers_eq_iff : ∀ members : List (String × Value),
    cjsonMembers members = some members ↔ StableMembers members
  | [] => by simp [cjsonMembers, StableMembers]
  | (k, v) :: ms => by
    rw [StableMembers, ← cjson_eq_iff v, ← cjsonMembers_eq_iff ms, cjsonMembers]
    cases v.cjson <;> cases cjsonMembers ms <;> simp

end

/-! ## Records -/

/-- An action in the hash of a message, with the value of its data. Its other fields are strings, which cjson keeps. -/
structure ActionRecord where
  action : RealtimeMessageAction
  data : Value

def ActionRecord.removed (r : ActionRecord) (now : Int) : ActionRecord :=
  { r with action := { r.action with removedAt := r.action.removedAt <|> some now } }

/-- The hash of a message: the records and the owners by the id of the action. -/
structure ActionHash where
  action : String → Option ActionRecord
  owner : String → Option String

inductive Removal where
  | notFound
  | forbidden
  | unavailable
  | ok (record : ActionRecord)

/-- `removeRealtimeActionScript`. -/
def ActionHash.remove (h : ActionHash) (actionId clientId : String) (now : Int) : Removal × ActionHash :=
  match h.action actionId with
  | none => (.notFound, h)
  | some r =>
    if h.owner actionId ≠ some clientId then (.forbidden, h)
    else if r.action.removedAt.isSome then (.ok r, h)
    else match r.data.cjson with
      | none => (.unavailable, h)
      | some data =>
        let r := { r.removed now with data }
        (.ok r, { h with action := Function.update h.action actionId (some r) })

theorem ActionHash.remove_writes (h : ActionHash) (actionId clientId : String) (now : Int) :
    (h.remove actionId clientId now).2 = h ∨
      ∃ r, (h.remove actionId clientId now).2 = { h with action := Function.update h.action actionId r } := by
  unfold ActionHash.remove
  split
  · exact .inl rfl
  · split_ifs
    · exact .inl rfl
    · exact .inl rfl
    · split
      · exact .inl rfl
      · exact .inr ⟨_, rfl⟩

/-- The hash as Redis has it. `value` is the value of a text of data. -/
def actionHash (value : String → Value) (h : Fields) : ActionHash where
  action id := (actionOf h id).map fun a => ⟨a, value a.data⟩
  owner id := match h.lookup (ownerField id) with
    | some (.text clientId) => some clientId
    | _ => none

def Removal.reply : Removal → RedisReply
  | .notFound => .notFound
  | .forbidden => .forbidden
  | .unavailable => .failed
  | .ok r => .action r.action

theorem actionHash_setField (value : String → Value) (h : Fields) (id : String) (a : RealtimeMessageAction) :
    actionHash value (setField (actionField id) (.action a) h) =
      { actionHash value h with action := Function.update (actionHash value h).action id (some ⟨a, value a.data⟩) } := by
  have howner (other : String) : ownerField other ≠ actionField id := by
    intro heq
    have hchars := congrArg String.toList heq
    simp [ownerField, actionField] at hchars
  simp only [actionHash, actionOf, setField, ActionHash.mk.injEq]
  refine ⟨funext fun other => ?_, funext fun other => ?_⟩
  · by_cases hid : other = id
    · simp [hid]
    · have hfield : actionField other ≠ actionField id := by simpa [actionField] using hid
      rw [Dict.lookup_set_ne hfield, Function.update_of_ne hid]
  · rw [Dict.lookup_set_ne (howner other)]

/-- **The script of the Redis model is this one wherever cjson keeps the data.** -/
theorem removeScript_eq_remove (value : String → Value) (h : Fields) (actionId clientId : String) (now : Int)
    (hstable : ∀ a, actionOf h actionId = some a → (value a.data).Stable) :
    ((removeScript actionId clientId now h).1, actionHash value (removeScript actionId clientId now h).2) =
      Prod.map Removal.reply id ((actionHash value h).remove actionId clientId now) := by
  have howner : h.lookup (ownerField actionId) = some (.text clientId) ↔
      (actionHash value h).owner actionId = some clientId := by
    unfold actionHash
    dsimp only
    split <;> simp_all
  unfold removeScript ActionHash.remove
  cases ha : actionOf h actionId with
  | none => simp [actionHash, ha, Removal.reply]
  | some a =>
    have hcjson := (Value.cjson_eq_iff _).mpr (hstable a ha)
    have haction : (actionHash value h).action actionId = some ⟨a, value a.data⟩ := by simp [actionHash, ha]
    simp only [haction, howner, ne_eq]
    by_cases hclient : (actionHash value h).owner actionId = some clientId
    · cases hremoved : a.removedAt with
      | some t => simp [hclient, Removal.reply]
      | none => simp [hclient, hremoved, hcjson, actionHash_setField, ActionRecord.removed, Removal.reply]
    · simp [hclient, Removal.reply]

theorem removal_marks_iff (h : ActionHash) (actionId clientId : String) (now : Int) :
    (h.remove actionId clientId now).2.owner = h.owner ∧
    (∀ id ≠ actionId, (h.remove actionId clientId now).2.action id = h.action id) ∧
    ∀ r, h.action actionId = some r → h.owner actionId = some clientId →
      ((h.remove actionId clientId now).1 = .ok (r.removed now) ∧
        (h.remove actionId clientId now).2.action actionId = some (r.removed now) ↔
          r.action.removedAt.isSome = true ∨ r.data.Stable) := by
  refine ⟨?_, fun id hid => ?_, fun r hr howner => ?_⟩
  · obtain heq | ⟨_, heq⟩ := h.remove_writes actionId clientId now <;> rw [heq]
  · obtain heq | ⟨_, heq⟩ := h.remove_writes actionId clientId now <;> rw [heq]
    exact Function.update_of_ne hid _ _
  · simp only [ActionHash.remove, hr, howner]
    cases hremoved : r.action.removedAt with
    | some t =>
      have hsame : r.removed now = r := by
        obtain ⟨⟨⟩, data⟩ := r
        cases hremoved
        rfl
      simp [hr, hsame]
    | none =>
      rw [← Value.cjson_eq_iff]
      cases r.data.cjson <;> simp [ActionRecord.removed]

/-- The data of an action has an empty array. -/
def untagged : ActionRecord where
  action := ⟨"action_1", "app_1", "ops", "msg_1", "client_1", .reaction, "key_1", "", 0, none⟩
  data := .obj [("tags", .arr [])]

theorem removal_turns_array_into_object :
    ((⟨fun _ => some untagged, fun _ => some "client_1"⟩ : ActionHash).remove "action_1" "client_1" 1).1 =
      .ok { untagged.removed 1 with data := .obj [("tags", .obj [])] } := by
  rfl

end RelayHub.Realtime
