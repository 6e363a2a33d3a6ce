import Mathlib.Data.String.Basic
import RelayHub.Lib.JsonText

/-! # JSON texts

`Json` is a JSON text without its white space: numbers and strings stand as they are written, and
object members keep their order and their repetitions. `text` writes a tree and `parse` reads one, so
a tree is what `encoding/json` can tell about a text; `parse_text` says that nothing is lost on the
way. `parse true` is a reader that stops at the first repeated key of an object. -/

inductive Json where
  | null
  | bool (b : Bool)
  | num (n : Json.Number)
  | str (s : List Json.Chunk)
  | arr (vs : List Json)
  | obj (ms : List (List Json.Chunk × Json))

namespace Json

open List

/-! ## Writing -/

def strText (s : List Chunk) : List Char := '"' :: (Chunk.textAll s ++ ['"'])

mutual
/-- The text of a tree, without white space. -/
def text : Json → List Char
  | null => ['n', 'u', 'l', 'l']
  | bool true => ['t', 'r', 'u', 'e']
  | bool false => ['f', 'a', 'l', 's', 'e']
  | num n => n.text
  | str s => strText s
  | arr vs => '[' :: (elementsText vs ++ [']'])
  | obj ms => '{' :: (membersText ms ++ ['}'])

def elementsText : List Json → List Char
  | [] => []
  | [v] => text v
  | v :: w :: vs => text v ++ ',' :: elementsText (w :: vs)

def membersText : List (List Chunk × Json) → List Char
  | [] => []
  | [(k, v)] => strText k ++ ':' :: text v
  | (k, v) :: m :: ms => strText k ++ ':' :: (text v ++ ',' :: membersText (m :: ms))
end

/-! ## Reading -/

/-- Why a text is refused. -/
inductive Fault where
  | malformed
  | duplicate
  deriving DecidableEq

def isWhite (c : Char) : Bool := c = ' ' || c = '\t' || c = '\n' || c = '\r'

def skipWhite (cs : List Char) : List Char := cs.dropWhile isWhite

/-- A literal or a number. -/
def scalar : List Char → Except Fault (Json × List Char)
  | 'n' :: 'u' :: 'l' :: 'l' :: cs => .ok (null, cs)
  | 't' :: 'r' :: 'u' :: 'e' :: cs => .ok (bool true, cs)
  | 'f' :: 'a' :: 'l' :: 's' :: 'e' :: cs => .ok (bool false, cs)
  | cs =>
    match number cs with
    | some (n, cs) => .ok (num n, cs)
    | none => .error .malformed

mutual
/-- Reads one value. With `unique`, a key that its object has already is a `duplicate`. The first
argument bounds the recursion. -/
def value (unique : Bool) : Nat → List Char → Except Fault (Json × List Char)
  | 0, _ => .error .malformed
  | n + 1, cs =>
    match skipWhite cs with
    | [] => .error .malformed
    | c :: cs =>
      if c = '{' then
        match skipWhite cs with
        | '}' :: cs => .ok (obj [], cs)
        | cs =>
          match members unique n [] cs with
          | .ok (ms, cs) => .ok (obj ms, cs)
          | .error e => .error e
      else if c = '[' then
        match skipWhite cs with
        | ']' :: cs => .ok (arr [], cs)
        | cs =>
          match elements unique n cs with
          | .ok (vs, cs) => .ok (arr vs, cs)
          | .error e => .error e
      else if c = '"' then
        match stringBody cs with
        | some (s, cs) => .ok (str s, cs)
        | none => .error .malformed
      else scalar (c :: cs)

/-- Reads the elements of an array and its closing bracket. -/
def elements (unique : Bool) : Nat → List Char → Except Fault (List Json × List Char)
  | 0, _ => .error .malformed
  | n + 1, cs =>
    match value unique n cs with
    | .error e => .error e
    | .ok (v, cs) =>
      match skipWhite cs with
      | ',' :: cs =>
        match elements unique n cs with
        | .ok (vs, cs) => .ok (v :: vs, cs)
        | .error e => .error e
      | ']' :: cs => .ok ([v], cs)
      | _ => .error .malformed

/-- Reads the members of an object that has the keys `seen` already, and its closing bracket. -/
def members (unique : Bool) :
    Nat → List String → List Char → Except Fault (List (List Chunk × Json) × List Char)
  | 0, _, _ => .error .malformed
  | n + 1, seen, cs =>
    match skipWhite cs with
    | '"' :: cs =>
      match stringBody cs with
      | none => .error .malformed
      | some (k, cs) =>
        if unique && seen.contains (unquote k) then .error .duplicate
        else
          match skipWhite cs with
          | ':' :: cs =>
            match value unique n cs with
            | .error e => .error e
            | .ok (v, cs) =>
              match skipWhite cs with
              | ',' :: cs =>
                match members unique n (unquote k :: seen) cs with
                | .ok (ms, cs) => .ok ((k, v) :: ms, cs)
                | .error e => .error e
              | '}' :: cs => .ok ([(k, v)], cs)
              | _ => .error .malformed
          | _ => .error .malformed
    | _ => .error .malformed
end

/-- Reads a text that holds one value. Two steps of the recursion read at least one character, so the
bound is never met. -/
def parse (unique : Bool) (cs : List Char) : Except Fault Json :=
  match value unique (2 * cs.length + 1) cs with
  | .error e => .error e
  | .ok (v, rest) => if skipWhite rest = [] then .ok v else .error .malformed

/-! ## Measures -/

mutual
/-- How deep arrays and objects are nested. -/
def depth : Json → Nat
  | arr vs => elementsDepth vs + 1
  | obj ms => membersDepth ms + 1
  | _ => 0

def elementsDepth : List Json → Nat
  | [] => 0
  | v :: vs => max (depth v) (elementsDepth vs)

def membersDepth : List (List Chunk × Json) → Nat
  | [] => 0
  | (_, v) :: ms => max (depth v) (membersDepth ms)
end

mutual
/-- Some object has two keys that mean the same string. -/
def repeatsKey : Json → Bool
  | arr vs => elementsRepeat vs
  | obj ms => membersRepeat [] ms
  | _ => false

def elementsRepeat : List Json → Bool
  | [] => false
  | v :: vs => repeatsKey v || elementsRepeat vs

def membersRepeat : List String → List (List Chunk × Json) → Bool
  | _, [] => false
  | seen, (k, v) :: ms =>
    seen.contains (unquote k) || repeatsKey v || membersRepeat (unquote k :: seen) ms
end

/-! ## Reading what was written -/

theorem skipWhite_cons {c : Char} (h : isWhite c = false) (cs : List Char) : skipWhite (c :: cs) = c :: cs := by
  simp [skipWhite, h]

/-- What may follow a number. -/
def Stops (rest : List Char) : Prop := ∀ c ∈ rest.head?, isNumChar c = false

theorem stops_cons {c : Char} (h : isNumChar c = false) (rest : List Char) : Stops (c :: rest) := by
  rintro _ ⟨⟩
  exact h

theorem stops_nil : Stops [] := by
  rintro _ ⟨⟩

theorem Number.head (n : Number) : ∃ c cs, n.text = c :: cs ∧ isNumChar c = true := by
  cases ht : n.text with
  | nil => exact absurd ht n.ne_nil
  | cons c cs => exact ⟨c, cs, rfl, isNumChar_of_mem n.valid c (by rw [ht]; exact mem_cons_self)⟩

/-- A value starts neither with white space nor with a closing bracket. -/
theorem text_head (v : Json) : ∃ c cs, text v = c :: cs ∧ isWhite c = false ∧ c ≠ ']' := by
  cases v with
  | null | str | arr | obj => exact ⟨_, _, rfl, by decide⟩
  | bool b => cases b <;> exact ⟨_, _, rfl, by decide⟩
  | num n =>
    obtain ⟨c, cs, ht, hc⟩ := n.head
    refine ⟨c, cs, ht, ?_, ?_⟩
    · simp only [isWhite, Bool.or_eq_false_iff, decide_eq_false_iff_not]
      refine ⟨⟨⟨?_, ?_⟩, ?_⟩, ?_⟩ <;> rintro rfl <;> exact absurd hc (by decide)
    · rintro rfl
      exact absurd hc (by decide)

theorem elementsText_head (v : Json) (vs : List Json) :
    ∃ c cs, elementsText (v :: vs) = c :: cs ∧ isWhite c = false ∧ c ≠ ']' := by
  obtain ⟨c, cs, ht, hw, hne⟩ := text_head v
  cases vs with
  | nil => exact ⟨c, cs, ht, hw, hne⟩
  | cons w vs => exact ⟨c, cs ++ ',' :: elementsText (w :: vs), by rw [elementsText, ht]; rfl, hw, hne⟩

theorem membersText_head (m : List Chunk × Json) (ms : List (List Chunk × Json)) :
    ∃ cs, membersText (m :: ms) = '"' :: cs := by
  obtain ⟨k, v⟩ := m
  cases ms with
  | nil | cons => exact ⟨_, rfl⟩

theorem scalar_number (n : Number) {rest : List Char} (hr : Stops rest) :
    scalar (n.text ++ rest) = .ok (num n, rest) := by
  have hnum := number_text n hr
  obtain ⟨c, cs, ht, hc⟩ := n.head
  rw [ht, cons_append] at hnum ⊢
  unfold scalar
  -- no literal starts with a number character
  split
  · next heq => rw [(List.cons.inj heq).1] at hc; exact absurd hc (by decide)
  · next heq => rw [(List.cons.inj heq).1] at hc; exact absurd hc (by decide)
  · next heq => rw [(List.cons.inj heq).1] at hc; exact absurd hc (by decide)
  · rw [hnum]

/-- The outcome of reading a text that holds `a`, once it is known whether a key is repeated in it. -/
def outcome {α : Type} (repeated : Bool) (a : α) : Except Fault α :=
  if repeated then .error .duplicate else .ok a

@[simp] theorem outcome_true {α : Type} (a : α) : outcome true a = .error .duplicate := rfl

@[simp] theorem outcome_false {α : Type} (a : α) : outcome false a = .ok a := rfl

theorem value_num (u : Bool) (n : Nat) (x : Number) {rest : List Char} (hr : Stops rest) :
    value u (n + 1) (x.text ++ rest) = .ok (num x, rest) := by
  have hscalar := scalar_number x hr
  obtain ⟨c, cs, ht, hc⟩ := x.head
  obtain ⟨c', cs', ht', hw, -⟩ := text_head (num x)
  have hcc : c' = c := by
    rw [text, ht] at ht'
    exact (List.cons.inj ht').1.symm
  subst hcc
  have h1 : c' ≠ '{' := by rintro rfl; exact absurd hc (by decide)
  have h2 : c' ≠ '[' := by rintro rfl; exact absurd hc (by decide)
  have h3 : c' ≠ '"' := by rintro rfl; exact absurd hc (by decide)
  rw [ht, cons_append] at hscalar ⊢
  simp only [value, skipWhite_cons hw, if_neg h1, if_neg h2, if_neg h3, hscalar]

theorem stringBody_strText (s : List Chunk) (rest : List Char) :
    stringBody (Chunk.textAll s ++ ['"'] ++ rest) = some (s, rest) := by
  rw [append_assoc]
  exact stringBody_text s rest

mutual
/-- A written value is read back, or the repeated key in it is found. -/
theorem value_text (u : Bool) : ∀ (v : Json) (n : Nat) (rest : List Char), (text v).length ≤ n → Stops rest →
      value u n (text v ++ rest) = outcome (u && repeatsKey v) (v, rest)
  | v, 0, rest, hn, _ => by
    obtain ⟨c, cs, ht, -⟩ := text_head v
    simp [ht] at hn
  | null, n + 1, _, _, _ | bool true, n + 1, _, _, _ | bool false, n + 1, _, _, _ => by
    simp [text, value, skipWhite, isWhite, scalar, repeatsKey, outcome]
  | num x, n + 1, rest, _, hr => by
    simp [text, value_num u n x hr, repeatsKey, outcome]
  | str s, n + 1, rest, _, _ => by
    have hs := stringBody_strText s rest
    simp only [text, strText, cons_append, value, skipWhite_cons (show isWhite '"' = false by decide),
      hs, repeatsKey, outcome]
    simp
  | arr [], n + 1, rest, _, _ => by
    simp [text, elementsText, value, skipWhite, isWhite, repeatsKey, elementsRepeat, outcome]
  | arr (v :: vs), n + 1, rest, hn, _ => by
    have ih := elements_text u (v :: vs) n rest (by simp) (by simp [text] at hn; omega)
    obtain ⟨c, cs, ht, hw, hne⟩ := elementsText_head v vs
    have htext : text (arr (v :: vs)) ++ rest = '[' :: (elementsText (v :: vs) ++ ']' :: rest) := by
      simp [text]
    rw [htext, value, skipWhite_cons (by decide)]
    simp only [show ('[' : Char) ≠ '{' by decide, if_false, if_true]
    rw [ht, cons_append] at ih ⊢
    rw [skipWhite_cons hw]
    -- the first element does not start with the closing bracket
    split
    · next heq => exact absurd (List.cons.inj heq).1 hne
    · rw [ih, repeatsKey]
      cases u && elementsRepeat (v :: vs) <;> rfl
  | obj [], n + 1, rest, _, _ => by
    simp [text, membersText, value, skipWhite, isWhite, repeatsKey, membersRepeat, outcome]
  | obj (m :: ms), n + 1, rest, hn, _ => by
    have ih := members_text u (m :: ms) [] n rest (by simp) (by simp [text] at hn; omega)
    obtain ⟨cs, ht⟩ := membersText_head m ms
    have htext : text (obj (m :: ms)) ++ rest = '{' :: (membersText (m :: ms) ++ '}' :: rest) := by
      simp [text]
    rw [htext, value, skipWhite_cons (by decide)]
    simp only [if_true]
    rw [ht, cons_append] at ih ⊢
    rw [skipWhite_cons (by decide)]
    split
    · next heq => exact absurd (List.cons.inj heq).1 (by decide)
    · rw [ih, repeatsKey]
      cases u && membersRepeat [] (m :: ms) <;> rfl

theorem elements_text (u : Bool) : ∀ (vs : List Json) (n : Nat) (rest : List Char), vs ≠ [] →
    (elementsText vs).length + 1 ≤ n →
      elements u n (elementsText vs ++ ']' :: rest) = outcome (u && elementsRepeat vs) (vs, rest)
  | [], _, _, h, _ => absurd rfl h
  | _ :: _, 0, _, _, hn => by omega
  | [v], n + 1, rest, _, hn => by
    have ih := value_text u v n (']' :: rest) (by simp [elementsText] at hn; omega) (stops_cons (by decide) rest)
    simp only [elementsText, elements, ih, elementsRepeat, Bool.or_false]
    cases u && repeatsKey v
    · simp only [outcome_false, skipWhite_cons (show isWhite ']' = false by decide)]
    · rfl
  | v :: w :: vs, n + 1, rest, _, hn => by
    simp only [elementsText, length_append, length_cons] at hn
    have ih := value_text u v n (',' :: (elementsText (w :: vs) ++ ']' :: rest)) (by omega) (stops_cons (by decide) _)
    have ih' := elements_text u (w :: vs) n rest (by simp) (by omega)
    have htext : elementsText (v :: w :: vs) ++ ']' :: rest =
        text v ++ ',' :: (elementsText (w :: vs) ++ ']' :: rest) := by
      simp [elementsText]
    have hrep : (u && elementsRepeat (v :: w :: vs)) = (u && repeatsKey v || u && elementsRepeat (w :: vs)) := by
      rw [elementsRepeat, Bool.and_or_distrib_left]
    rw [htext, elements, ih, hrep]
    cases u && repeatsKey v
    · simp only [outcome_false, skipWhite_cons (show isWhite ',' = false by decide), ih', Bool.false_or]
      cases u && elementsRepeat (w :: vs) <;> rfl
    · rfl

theorem members_text (u : Bool) : ∀ (ms : List (List Chunk × Json)) (seen : List String) (n : Nat)
    (rest : List Char), ms ≠ [] → (membersText ms).length + 1 ≤ n →
      members u n seen (membersText ms ++ '}' :: rest) = outcome (u && membersRepeat seen ms) (ms, rest)
  | [], _, _, _, h, _ => absurd rfl h
  | _ :: _, _, 0, _, _, hn => by omega
  | [(k, v)], seen, n + 1, rest, _, hn => by
    simp only [membersText, strText, length_append, length_cons] at hn
    have ih := value_text u v n ('}' :: rest) (by omega) (stops_cons (by decide) rest)
    have htext : membersText [(k, v)] ++ '}' :: rest =
        '"' :: (Chunk.textAll k ++ '"' :: ':' :: (text v ++ '}' :: rest)) := by
      simp [membersText, strText]
    rw [htext, members, skipWhite_cons (by decide)]
    simp only [stringBody_text]
    cases hk : u && seen.contains (unquote k)
    · simp only [Bool.false_eq_true, if_false, skipWhite_cons (show isWhite ':' = false by decide), ih]
      rw [membersRepeat, membersRepeat, Bool.or_false, Bool.and_or_distrib_left, hk, Bool.false_or]
      cases u && repeatsKey v
      · simp only [outcome_false, skipWhite_cons (show isWhite '}' = false by decide)]
      · rfl
    · rw [membersRepeat, Bool.or_assoc, Bool.and_or_distrib_left, hk]
      rfl
  | (k, v) :: m :: ms, seen, n + 1, rest, _, hn => by
    simp only [membersText, strText, length_append, length_cons] at hn
    have ih := value_text u v n (',' :: (membersText (m :: ms) ++ '}' :: rest)) (by omega) (stops_cons (by decide) _)
    have ih' := members_text u (m :: ms) (unquote k :: seen) n rest (by simp) (by omega)
    have htext : membersText ((k, v) :: m :: ms) ++ '}' :: rest = '"' :: (Chunk.textAll k ++ '"' :: ':' ::
          (text v ++ ',' :: (membersText (m :: ms) ++ '}' :: rest))) := by
      simp [membersText, strText]
    rw [htext, members, skipWhite_cons (by decide)]
    simp only [stringBody_text]
    cases hk : u && seen.contains (unquote k)
    · simp only [Bool.false_eq_true, if_false, skipWhite_cons (show isWhite ':' = false by decide), ih]
      rw [membersRepeat, Bool.or_assoc, Bool.and_or_distrib_left, hk, Bool.false_or, Bool.and_or_distrib_left]
      cases u && repeatsKey v
      · simp only [outcome_false, skipWhite_cons (show isWhite ',' = false by decide), ih', Bool.false_or]
        cases u && membersRepeat (unquote k :: seen) (m :: ms) <;> rfl
      · rfl
    · rw [membersRepeat, Bool.or_assoc, Bool.and_or_distrib_left, hk]
      rfl
end

theorem parse_text (u : Bool) (v : Json) : parse u (text v) = outcome (u && repeatsKey v) v := by
  have h := value_text u v (2 * (text v).length + 1) [] (by omega) stops_nil
  rw [append_nil] at h
  rw [parse, h]
  cases u && repeatsKey v
  · simp [skipWhite]
  · rfl

/-! ## Texts of `encoding/json` -/

/-- The nesting `encoding/json` reads at most. -/
def maxDepth : Nat := 10000

/-- The tree of a text that `json.Valid` accepts. -/
def decode (cs : List Char) : Option Json :=
  match parse false cs with
  | .ok v => if v.depth ≤ maxDepth then some v else none
  | .error _ => none

theorem decode_text {v : Json} (h : v.depth ≤ maxDepth) : decode (text v) = some v := by
  simp [decode, parse_text, h]

theorem decode_text_eq_none {v : Json} (h : ¬ v.depth ≤ maxDepth) : decode (text v) = none := by
  simp [decode, parse_text, h]

theorem depth_le_of_decode {cs : List Char} {v : Json} (h : decode cs = some v) : v.depth ≤ maxDepth := by
  unfold decode at h
  split at h
  · split at h
    · next hd =>
      cases h
      exact hd
    · simp at h
  · simp at h

theorem value_brace {u : Bool} {n : Nat} {cs rest : List Char} {v : Json}
    (h : value u (n + 1) ('{' :: cs) = .ok (v, rest)) : ∃ ms, v = obj ms := by
  rw [value.eq_def] at h
  simp only [skipWhite_cons (show isWhite '{' = false by decide), if_true] at h
  split at h
  · cases h
    exact ⟨[], rfl⟩
  · split at h
    · cases h
      exact ⟨_, rfl⟩
    · cases h

theorem decode_brace {cs : List Char} {v : Json} (h : decode ('{' :: cs) = some v) : ∃ ms, v = obj ms := by
  unfold decode parse at h
  cases hv : value false (2 * ('{' :: cs).length + 1) ('{' :: cs) with
  | error =>
    rw [hv] at h
    cases h
  | ok r =>
    obtain ⟨w, rest⟩ := r
    obtain ⟨ms, rfl⟩ := value_brace hv
    rw [hv] at h
    simp only at h
    split at h
    next heq =>
      split at heq
      · cases heq
        split at h
        · cases h
          exact ⟨ms, rfl⟩
        · cases h
      · cases heq
    · cases h

mutual
/-- The tree with every string escaped. -/
def escapeHTML : Json → Json
  | null => null
  | bool b => bool b
  | num n => num n
  | str s => str (s.map Chunk.escapeHTML)
  | arr vs => arr (escapeElements vs)
  | obj ms => obj (escapeMembers ms)

def escapeElements : List Json → List Json
  | [] => []
  | v :: vs => escapeHTML v :: escapeElements vs

def escapeMembers : List (List Chunk × Json) → List (List Chunk × Json)
  | [] => []
  | (k, v) :: ms => (k.map Chunk.escapeHTML, escapeHTML v) :: escapeMembers ms
end

mutual
@[simp] theorem depth_escapeHTML : ∀ v : Json, (escapeHTML v).depth = v.depth
  | null | bool _ | num _ | str _ => rfl
  | arr vs => by rw [escapeHTML, depth, depth, elementsDepth_escape]
  | obj ms => by rw [escapeHTML, depth, depth, membersDepth_escape]

theorem elementsDepth_escape : ∀ vs : List Json, elementsDepth (escapeElements vs) = elementsDepth vs
  | [] => rfl
  | v :: vs => by
    rw [escapeElements, elementsDepth, elementsDepth, depth_escapeHTML, elementsDepth_escape]

theorem membersDepth_escape : ∀ ms : List (List Chunk × Json), membersDepth (escapeMembers ms) = membersDepth ms
  | [] => rfl
  | (k, v) :: ms => by
    rw [escapeMembers, membersDepth, membersDepth, depth_escapeHTML, membersDepth_escape]
end

mutual
@[simp] theorem repeatsKey_escapeHTML : ∀ v : Json, (escapeHTML v).repeatsKey = v.repeatsKey
  | null | bool _ | num _ | str _ => rfl
  | arr vs => by rw [escapeHTML, repeatsKey, repeatsKey, elementsRepeat_escape]
  | obj ms => by rw [escapeHTML, repeatsKey, repeatsKey, membersRepeat_escape]

theorem elementsRepeat_escape : ∀ vs : List Json, elementsRepeat (escapeElements vs) = elementsRepeat vs
  | [] => rfl
  | v :: vs => by
    rw [escapeElements, elementsRepeat, elementsRepeat, repeatsKey_escapeHTML, elementsRepeat_escape]

theorem membersRepeat_escape : ∀ (ms : List (List Chunk × Json)) (seen : List String),
    membersRepeat seen (escapeMembers ms) = membersRepeat seen ms
  | [], _ => rfl
  | (k, v) :: ms, seen => by
    rw [escapeMembers, membersRepeat, membersRepeat, unquote_escapeHTML, repeatsKey_escapeHTML, membersRepeat_escape]
end

mutual
@[simp] theorem escapeHTML_idem : ∀ v : Json, escapeHTML (escapeHTML v) = escapeHTML v
  | null | bool _ | num _ => rfl
  | str s => by simp [escapeHTML, Function.comp_def]
  | arr vs => by rw [escapeHTML, escapeHTML, escapeElements_idem]
  | obj ms => by rw [escapeHTML, escapeHTML, escapeMembers_idem]

theorem escapeElements_idem : ∀ vs : List Json, escapeElements (escapeElements vs) = escapeElements vs
  | [] => rfl
  | v :: vs => by rw [escapeElements, escapeElements, escapeHTML_idem, escapeElements_idem]

theorem escapeMembers_idem : ∀ ms : List (List Chunk × Json), escapeMembers (escapeMembers ms) = escapeMembers ms
  | [] => rfl
  | (k, v) :: ms => by
    rw [escapeMembers, escapeMembers, escapeHTML_idem, escapeMembers_idem]
    simp [Function.comp_def]
end

/-! ## Reading into variables

`json.Unmarshal` of a value into a fresh variable; `null` leaves the variable as it is. -/

def unmarshalString : Json → Option String
  | null => some ""
  | str s => some (unquote s)
  | _ => none

def unmarshalInt : Json → Option Int
  | null => some 0
  | num n => n.toInt?
  | _ => none

def unmarshalBool : Json → Option Bool
  | null => some false
  | bool b => some b
  | _ => none

def unmarshalStrings : Json → Option (List String)
  | null => some []
  | arr vs => vs.mapM unmarshalString
  | _ => none

/-- The last member whose key means `name`. -/
def lookup (ms : List (List Chunk × Json)) (name : String) : Option Json :=
  (ms.reverse.find? fun m => unquote m.1 = name).map Prod.snd

/-! ## Writing variables -/

def ofString (s : String) : Json := str (quote s)

def ofInt (i : Int) : Json := num (Number.ofInt i)

def ofStrings (ss : List String) : Json := arr (ss.map ofString)

/-- An object with the given field names. -/
def ofFields (fs : List (String × Json)) : Json := obj (fs.map fun f => (quote f.1, f.2))

@[simp] theorem unmarshalString_ofString (s : String) : unmarshalString (ofString s) = some s := by
  simp [unmarshalString, ofString]

theorem unmarshalInt_ofInt {i : Int} (h : IsInt64 i) : unmarshalInt (ofInt i) = some i :=
  Number.toInt?_ofInt h

variable (ss : List String)

@[simp] theorem unmarshalStrings_ofStrings : unmarshalStrings (ofStrings ss) = some ss := by
  simp only [unmarshalStrings, ofStrings]
  induction ss with
  | nil => rfl
  | cons s ss ih => simp [ih]

/-! ## Objects with given fields -/

/-- The members of such an object. -/
abbrev keyed (fs : List (String × Json)) : List (List Chunk × Json) := fs.map fun f => (quote f.1, f.2)

theorem lookup_ofFields (fs : List (String × Json)) (name : String) :
    lookup (keyed fs) name = (fs.reverse.find? fun f => f.1 = name).map Prod.snd := by
  unfold lookup
  rw [← map_reverse, find?_map, Option.map_map]
  simp only [Function.comp_def, unquote_quote]

variable {fs : List (String × Json)}

theorem membersRepeat_fields {seen : List String} (hnames : (fs.map Prod.fst).Nodup) (hseen : ∀ f ∈ fs, f.1 ∉ seen) :
    membersRepeat seen (keyed fs) = fs.any fun f => repeatsKey f.2 := by
  induction fs generalizing seen with
  | nil => rfl
  | cons f fs ih =>
    rw [map_cons, nodup_cons] at hnames
    have hrest : membersRepeat (f.1 :: seen) (keyed fs) = fs.any fun f => repeatsKey f.2 := by
      refine ih hnames.2 fun g hg hmem => ?_
      rcases mem_cons.mp hmem with hname | hmem
      · exact hnames.1 (hname ▸ mem_map_of_mem hg)
      · exact hseen g (mem_cons_of_mem _ hg) hmem
    have hfresh : f.1 ∉ seen := hseen f mem_cons_self
    simp [membersRepeat, hfresh, hrest]

/-- Only the values of an object with distinct fields can have a key twice. -/
theorem repeatsKey_ofFields (h : (fs.map Prod.fst).Nodup) : repeatsKey (ofFields fs) = fs.any fun f => repeatsKey f.2 :=
  membersRepeat_fields h fun _ _ => not_mem_nil

theorem depth_ofFields_le {n : Nat} (hn : 0 < n) : depth (ofFields fs) ≤ n ↔ ∀ f ∈ fs, depth f.2 < n := by
  show membersDepth (keyed fs) < n ↔ _
  induction fs with
  | nil => simp [membersDepth, hn]
  | cons f fs ih => simp [membersDepth, ih]

@[simp] theorem repeatsKey_ofStrings : repeatsKey (ofStrings ss) = false := by
  show elementsRepeat (ss.map ofString) = false
  induction ss with
  | nil => rfl
  | cons s ss ih => rw [map_cons, elementsRepeat, ih]; rfl

theorem depth_ofStrings_le : depth (ofStrings ss) ≤ 1 := by
  show elementsDepth (ss.map ofString) + 1 ≤ 1
  induction ss with
  | nil => exact Nat.le_refl 1
  | cons =>
    show max 0 _ + 1 ≤ 1
    omega

/-! ## Sizes -/

/-- The number of bytes of a text. -/
def size (v : Json) : Nat := String.utf8Len (text v)

theorem utf8Size_punctuation : ':'.utf8Size = 1 ∧ ','.utf8Size = 1 ∧ '{'.utf8Size = 1 ∧ '}'.utf8Size = 1 := by
  decide

theorem utf8Len_membersText (h : fs ≠ []) :
    String.utf8Len (membersText (keyed fs)) + 1 = (fs.map fun f => size (ofString f.1) + size f.2 + 2).sum := by
  obtain ⟨hcolon, hcomma, -⟩ := utf8Size_punctuation
  induction fs with
  | nil => exact absurd rfl h
  | cons f fs ih =>
    cases fs with
    | nil =>
      simp [membersText, size, ofString, text]
      omega
    | cons g gs =>
      have hrest := ih (cons_ne_nil g gs)
      simp only [map_cons, membersText, String.utf8Len_append, String.utf8Len_cons, sum_cons] at hrest ⊢
      rw [← hrest]
      simp only [size, ofString, text]
      omega

theorem size_ofFields (h : fs ≠ []) :
    size (ofFields fs) = 1 + (fs.map fun f => size (ofString f.1) + size f.2 + 2).sum := by
  obtain ⟨-, -, hopen, hclose⟩ := utf8Size_punctuation
  rw [← utf8Len_membersText h]
  simp [size, ofFields, keyed, text]
  omega

theorem size_ofStrings {ss : List String} (h : ss ≠ []) :
    size (ofStrings ss) = 1 + (ss.map fun s => size (ofString s) + 1).sum := by
  obtain ⟨-, hcomma, -⟩ := utf8Size_punctuation
  have helements : ∀ {ss : List String}, ss ≠ [] →
      String.utf8Len (elementsText (ss.map ofString)) + 1 = (ss.map fun s => size (ofString s) + 1).sum := by
    intro ss h
    induction ss with
    | nil => exact absurd rfl h
    | cons s ss ih =>
      cases ss with
      | nil => simp [elementsText, size]
      | cons t ts =>
        have hrest := ih (cons_ne_nil t ts)
        simp only [map_cons, elementsText, String.utf8Len_append, String.utf8Len_cons, sum_cons] at hrest ⊢
        rw [← hrest]
        simp only [size, hcomma]
        omega
  have hbrackets : '['.utf8Size = 1 ∧ ']'.utf8Size = 1 := by decide
  rw [← helements h]
  simp [size, ofStrings, text, hbrackets]
  omega

end Json
