import Mathlib.Tactic.IntervalCases
import RelayHub.Lib.Text

/-! # The lexemes of JSON

Numbers and the bodies of strings, as they stand in a text. A `Number` is a text of the number grammar
and a `Chunk` is one character or escape of a string, so a lexeme that could not be read back cannot be
built. What a string means is `unquote`; `quote` is the way `encoding/json` writes a string, with `<`,
`>`, `&` and the two line separators escaped. -/

open Nat

namespace Json

open List

/-! ## Numbers -/

def isNumChar (c : Char) : Bool :=
  c.isDigit || c = '-' || c = '+' || c = '.' || c = 'e' || c = 'E'

/-- Drops one leading sign out of `signs`. -/
def dropSign (signs : List Char) : List Char → List Char
  | [] => []
  | c :: cs => if signs.contains c then cs else c :: cs

/-- Drops a non-empty run of digits. -/
def digits : List Char → Option (List Char)
  | [] => none
  | c :: cs => if c.isDigit then some (cs.dropWhile Char.isDigit) else none

/-- `0`, or digits that do not start with it. -/
def integerPart (cs : List Char) : Option (List Char) :=
  match cs with
  | [] => none
  | c :: rest => if c = '0' then some rest else digits cs

def fractionPart (cs : List Char) : Option (List Char) :=
  match cs with
  | [] => some []
  | c :: rest => if c = '.' then digits rest else some cs

def exponentPart (cs : List Char) : Option (List Char) :=
  match cs with
  | [] => some []
  | c :: rest => if c = 'e' ∨ c = 'E' then digits (dropSign ['+', '-'] rest) else some cs

/-- The number grammar of RFC 8259. -/
def isNumber (cs : List Char) : Bool :=
  ((integerPart (dropSign ['-'] cs)).bind fractionPart).bind exponentPart = some []

/-- A number as it is written. -/
structure Number where
  text : List Char
  valid : isNumber text = true

/-- `rest` is left of `cs` once some number characters are read. -/
def NumTail (cs rest : List Char) : Prop := ∃ pre, cs = pre ++ rest ∧ ∀ c ∈ pre, isNumChar c = true

namespace NumTail

theorem refl (cs : List Char) : NumTail cs cs := ⟨[], rfl, by simp⟩

theorem trans {a b c : List Char} (hab : NumTail a b) (hbc : NumTail b c) : NumTail a c := by
  obtain ⟨p, rfl, hp⟩ := hab
  obtain ⟨q, rfl, hq⟩ := hbc
  exact ⟨p ++ q, (append_assoc ..).symm, forall_mem_append.mpr ⟨hp, hq⟩⟩

theorem cons {c : Char} {cs rest : List Char} (hc : isNumChar c = true) (h : NumTail cs rest) :
    NumTail (c :: cs) rest := by
  obtain ⟨p, rfl, hp⟩ := h
  exact ⟨c :: p, rfl, by simpa [hc] using hp⟩

end NumTail

variable {c : Char}

theorem isNumChar_of_isDigit (h : c.isDigit = true) : isNumChar c = true := by
  simp [isNumChar, h]

theorem numTail_dropWhile (cs : List Char) : NumTail cs (cs.dropWhile Char.isDigit) := by
  refine ⟨cs.takeWhile Char.isDigit, (takeWhile_append_dropWhile ..).symm, fun c hc => ?_⟩
  exact isNumChar_of_isDigit (mem_takeWhile_imp hc)

variable {cs rest : List Char} {n : Nat} (k : Chunk) (s : List Chunk)

theorem numTail_digits (h : digits cs = some rest) : NumTail cs rest := by
  cases cs with
  | nil => simp [digits] at h
  | cons c cs =>
    simp only [digits, Option.ite_none_right_eq_some, Option.some.injEq] at h
    obtain ⟨hc, rfl⟩ := h
    exact (numTail_dropWhile cs).cons (isNumChar_of_isDigit hc)

theorem numTail_dropSign (signs : List Char) (hs : ∀ c ∈ signs, isNumChar c = true)
    (cs : List Char) : NumTail cs (dropSign signs cs) := by
  cases cs with
  | nil => exact .refl []
  | cons c cs =>
    simp only [dropSign]
    split
    · next h => exact (NumTail.refl cs).cons (hs c (by simpa using h))
    · exact .refl _

theorem numTail_integerPart (h : integerPart cs = some rest) : NumTail cs rest := by
  unfold integerPart at h
  split at h
  · simp at h
  split at h
  · next hc =>
    cases h
    subst hc
    exact (NumTail.refl _).cons (by decide)
  · exact numTail_digits h

theorem numTail_fractionPart (h : fractionPart cs = some rest) : NumTail cs rest := by
  unfold fractionPart at h
  split at h
  · cases h
    exact .refl []
  · split at h
    · next hc =>
      subst hc
      exact (numTail_digits h).cons (by decide)
    · cases h
      exact .refl _

theorem numTail_exponentPart (h : exponentPart cs = some rest) : NumTail cs rest := by
  unfold exponentPart at h
  split at h
  · cases h
    exact .refl []
  · split at h
    · next hc =>
      have hsign := numTail_dropSign ['+', '-'] (by simp [isNumChar])
      rcases hc with rfl | rfl
      · exact ((hsign _).trans (numTail_digits h)).cons (by decide)
      · exact ((hsign _).trans (numTail_digits h)).cons (by decide)
    · cases h
      exact .refl _

theorem isNumChar_of_mem (h : isNumber cs = true) : ∀ c ∈ cs, isNumChar c = true := by
  simp only [isNumber, decide_eq_true_eq, Option.bind_eq_some_iff] at h
  obtain ⟨b, ⟨a, ha, hb⟩, hc⟩ := h
  have hs : NumTail cs _ := numTail_dropSign ['-'] (by simp [isNumChar]) cs
  obtain ⟨pre, heq, hpre⟩ :=
    ((hs.trans (numTail_integerPart ha)).trans (numTail_fractionPart hb)).trans (numTail_exponentPart hc)
  rw [append_nil] at heq
  rwa [heq]

theorem Number.ne_nil (n : Number) : n.text ≠ [] := by
  intro h
  have hv := n.valid
  rw [h] at hv
  exact absurd hv (by decide)

/-- Reads the longest run of number characters. -/
def number (cs : List Char) : Option (Number × List Char) :=
  if h : isNumber (cs.takeWhile isNumChar) = true then
    some (⟨cs.takeWhile isNumChar, h⟩, cs.dropWhile isNumChar)
  else none

theorem number_text (n : Number) (hr : ∀ c ∈ rest.head?, isNumChar c = false) :
    number (n.text ++ rest) = some (n, rest) := by
  have hall := isNumChar_of_mem n.valid
  have htake : (n.text ++ rest).takeWhile isNumChar = n.text := Text.takeWhile_run hall hr
  have hdrop : (n.text ++ rest).dropWhile isNumChar = rest := Text.dropWhile_run hall hr
  simp [number, htake, hdrop, n.valid]

/-! ## Numbers and integers -/

theorem digits_of_all (h : ∀ x ∈ c :: cs, x.isDigit = true) : digits (c :: cs) = some [] := by
  have hcs : cs.dropWhile Char.isDigit = [] :=
    dropWhile_eq_nil_iff.mpr fun x hx => h x (mem_cons_of_mem c hx)
  simp [digits, h c mem_cons_self, hcs]

/-- The decimal digits of a positive number do not start with `0`. -/
theorem toDigits_head_ne_zero (h : n ≠ 0) : ∀ c ∈ (toDigits 10 n).head?, c ≠ '0' := by
  induction n using Nat.strong_induction_on with
  | _ n ih =>
    by_cases hn : n < 10
    · rw [Nat.toDigits_of_lt_base hn]
      interval_cases n <;> simp_all
    · rw [toDigits_of_base_le (by omega) (by omega)]
      have hrec := ih (n / 10) (by omega) (by omega)
      cases hd : toDigits 10 (n / 10) with
      | nil => exact absurd hd toDigits_ne_nil
      | cons => rwa [hd] at hrec

theorem integerPart_toDigits (n : Nat) : integerPart (toDigits 10 n) = some [] := by
  by_cases hn : n = 0
  · subst hn
    decide
  · have hhead := toDigits_head_ne_zero hn
    have hdigit : ∀ c ∈ toDigits 10 n, c.isDigit = true := fun c hc =>
      isDigit_of_mem_toDigits (by omega) (by omega) hc
    cases hd : toDigits 10 n with
    | nil => exact absurd hd toDigits_ne_nil
    | cons c =>
      rw [hd] at hhead hdigit
      simp only [integerPart, if_neg (hhead c rfl)]
      exact digits_of_all hdigit

theorem dropSign_minus_toDigits (n : Nat) : dropSign ['-'] (toDigits 10 n) = toDigits 10 n := by
  cases hd : toDigits 10 n with
  | nil => rfl
  | cons c =>
    have hc : c.isDigit = true :=
      isDigit_of_mem_toDigits (by omega : 0 < 10) (by omega) (by rw [hd]; exact mem_cons_self)
    have hne : c ≠ '-' := by
      rintro rfl
      exact absurd hc (by decide)
    simp [dropSign, hne]

/-- How `strconv` writes an integer. -/
def intText (i : Int) : List Char :=
  if i < 0 then '-' :: toDigits 10 i.natAbs else toDigits 10 i.natAbs

theorem isNumber_intText (i : Int) : isNumber (intText i) = true := by
  have hint := integerPart_toDigits i.natAbs
  unfold intText isNumber
  split
  · simp [dropSign, hint, fractionPart, exponentPart]
  · simp [dropSign_minus_toDigits, hint, fractionPart, exponentPart]

def Number.ofInt (i : Int) : Number := ⟨intText i, isNumber_intText i⟩

/-- The range of `int64`, which is also that of `int`. -/
def IsInt64 (i : Int) : Prop := -2 ^ 63 ≤ i ∧ i < 2 ^ 63

instance (i : Int) : Decidable (IsInt64 i) := inferInstanceAs (Decidable (_ ∧ _))

/-- `strconv.ParseInt` of a number, for 64 bits. -/
def Number.toInt? (n : Number) : Option Int :=
  let ds := dropSign ['-'] n.text
  let m : Int := ofDigitChars 10 ds 0
  let i := if n.text.head? = some '-' then -m else m
  if ds.all Char.isDigit && decide (IsInt64 i) then some i else none

theorem Number.toInt?_ofInt {i : Int} (h : IsInt64 i) : (Number.ofInt i).toInt? = some i := by
  have hall : (toDigits 10 i.natAbs).all Char.isDigit = true :=
    all_eq_true.mpr fun c hc => isDigit_of_mem_toDigits (by omega) (by omega) hc
  by_cases hi : i < 0
  · have htext : (Number.ofInt i).text = '-' :: toDigits 10 i.natAbs := if_pos hi
    have hval : -(ofDigitChars 10 (toDigits 10 i.natAbs) 0 : Int) = i := by
      rw [ofDigitChars_ten_toDigits]
      omega
    have hdrop : dropSign ['-'] ('-' :: toDigits 10 i.natAbs) = toDigits 10 i.natAbs := rfl
    simp only [Number.toInt?, htext, hdrop, hall, head?_cons, if_true, hval]
    simp [h]
  · have htext : (Number.ofInt i).text = toDigits 10 i.natAbs := if_neg hi
    have hval : (ofDigitChars 10 (toDigits 10 i.natAbs) 0 : Int) = i := by
      rw [ofDigitChars_ten_toDigits]
      omega
    have hhead : (toDigits 10 i.natAbs).head? ≠ some '-' := by
      intro hd
      have hdigit := isDigit_of_mem_toDigits (by omega : 0 < 10) (by omega) (mem_of_mem_head? hd)
      exact absurd hdigit (by decide)
    simp only [Number.toInt?, htext, dropSign_minus_toDigits, hall, hval, if_neg hhead]
    simp [h]

/-! ## Strings -/

def isHex (c : Char) : Bool :=
  c.isDigit || ('a' ≤ c && c ≤ 'f') || ('A' ≤ c && c ≤ 'F')

/-- A character that stands for itself in a string. -/
def isPlain (c : Char) : Bool := c ≠ '"' && c ≠ '\\' && decide (0x20 ≤ c.toNat)

/-- The letter of a two-character escape. -/
def isEscape (c : Char) : Bool := ['"', '\\', '/', 'b', 'f', 'n', 'r', 't'].contains c

abbrev HexDigit := { c : Char // isHex c = true }

/-- One character or escape of a string, as it is written. -/
inductive Chunk where
  | raw (c : Char) (h : isPlain c = true)
  | esc (c : Char) (h : isEscape c = true)
  | uni (a b c d : HexDigit)

namespace Chunk

def text : Chunk → List Char
  | raw c _ => [c]
  | esc c _ => ['\\', c]
  | uni a b c d => ['\\', 'u', a.1, b.1, c.1, d.1]

def textAll (s : List Chunk) : List Char := s.flatMap text

@[simp] theorem textAll_nil : textAll [] = [] := rfl

@[simp] theorem textAll_cons (k : Chunk) (s : List Chunk) : textAll (k :: s) = k.text ++ textAll s := rfl

end Chunk

/-- Reads a string after its opening quote, up to the closing one. -/
def stringBody : List Char → Option (List Chunk × List Char)
  | [] => none
  | c :: cs =>
    if c = '"' then some ([], cs)
    else if c = '\\' then
      match cs with
      | [] => none
      | e :: cs =>
        if h : isEscape e = true then (stringBody cs).map fun r => (.esc e h :: r.1, r.2)
        else if e = 'u' then
          match cs with
          | w :: x :: y :: z :: cs =>
            if h : isHex w = true ∧ isHex x = true ∧ isHex y = true ∧ isHex z = true then
              (stringBody cs).map fun r =>
                (.uni ⟨w, h.1⟩ ⟨x, h.2.1⟩ ⟨y, h.2.2.1⟩ ⟨z, h.2.2.2⟩ :: r.1, r.2)
            else none
          | _ => none
        else none
    else if h : isPlain c = true then (stringBody cs).map fun r => (.raw c h :: r.1, r.2)
    else none

theorem ne_of_isPlain (h : isPlain c = true) : c ≠ '"' ∧ c ≠ '\\' := by
  simp only [isPlain, Bool.and_eq_true, decide_eq_true_eq] at h
  exact h.1

theorem stringBody_chunk (cs : List Char) :
    stringBody (k.text ++ cs) = (stringBody cs).map fun r => (k :: r.1, r.2) := by
  cases k with
  | raw c h =>
    obtain ⟨hq, hb⟩ := ne_of_isPlain h
    rw [Chunk.text, singleton_append, stringBody.eq_def]
    simp [hq, hb, h]
  | esc c h =>
    rw [Chunk.text, cons_append, stringBody.eq_def]
    simp [h]
  | uni a b c d =>
    have hu : isEscape 'u' = false := by decide
    rw [Chunk.text, cons_append, stringBody.eq_def]
    simp [hu, a.2, b.2, c.2, d.2]

theorem stringBody_text (rest : List Char) : stringBody (Chunk.textAll s ++ '"' :: rest) = some (s, rest) := by
  induction s with
  | nil =>
    rw [stringBody.eq_def]
    simp
  | cons k s ih =>
    rw [Chunk.textAll_cons, append_assoc, stringBody_chunk, ih]
    rfl

/-! ### What a string means -/

/-- The value of a hex digit. -/
def hexValue (c : Char) : Nat :=
  if c.isDigit then c.toNat - '0'.toNat
  else if 'a' ≤ c then c.toNat - 'a'.toNat + 10
  else c.toNat - 'A'.toNat + 10

def hexCode (a b c d : HexDigit) : Nat :=
  hexValue a.1 * 4096 + hexValue b.1 * 256 + hexValue c.1 * 16 + hexValue d.1

def isHighSurrogate (n : Nat) : Bool := 0xD800 ≤ n && n < 0xDC00

def isLowSurrogate (n : Nat) : Bool := 0xDC00 ≤ n && n < 0xE000

/-- The character of a code that is not half of a pair. -/
def codeChar (n : Nat) : Char :=
  if isHighSurrogate n || isLowSurrogate n then '\uFFFD' else Char.ofNat n

/-- `utf16.DecodeRune`. -/
def pairChar (hi lo : Nat) : Char := Char.ofNat (0x10000 + (hi - 0xD800) * 0x400 + (lo - 0xDC00))

def unescape (c : Char) : Char :=
  if c = 'b' then '\x08' else if c = 'f' then '\x0c' else if c = 'n' then '\n'
  else if c = 'r' then '\r' else if c = 't' then '\t' else c

/-- The code of a `\u` escape. -/
def Chunk.code? : Chunk → Option Nat
  | .uni a b c d => some (hexCode a b c d)
  | _ => none

/-- The character a chunk stands for by itself. -/
def Chunk.char : Chunk → Char
  | .raw c _ => c
  | .esc c _ => unescape c
  | .uni a b c d => codeChar (hexCode a b c d)

/-- The pair that two chunks stand for, if the first is a high and the second a low surrogate. -/
def surrogatePair (k l : Chunk) : Option Char :=
  match k.code?, l.code? with
  | some hi, some lo => if isHighSurrogate hi && isLowSurrogate lo then some (pairChar hi lo) else none
  | _, _ => none

/-- The characters of a string: `unquote` of `encoding/json`. Half a pair is U+FFFD. -/
def unquoteChars : List Chunk → List Char
  | [] => []
  | [k] => [k.char]
  | k :: l :: s =>
    match surrogatePair k l with
    | some c => c :: unquoteChars s
    | none => k.char :: unquoteChars (l :: s)

def unquote (s : List Chunk) : String := String.ofList (unquoteChars s)

theorem unquoteChars_cons {k : Chunk} (hk : ∀ n ∈ k.code?, isHighSurrogate n = false) :
    unquoteChars (k :: s) = k.char :: unquoteChars s := by
  cases s with
  | nil => rfl
  | cons l =>
    have hp : surrogatePair k l = none := by
      unfold surrogatePair
      split
      · next hi _ hhi _ => simp [hk hi hhi]
      · rfl
    simp [unquoteChars, hp]

/-! ### Writing strings -/

theorem isHex_digitChar (h : n < 16) : isHex (digitChar n) = true := by
  interval_cases n <;> decide

/-- The lower-case hex digit of `n % 16`. -/
def hexDigit (n : Nat) : HexDigit := ⟨digitChar (n % 16), isHex_digitChar (mod_lt n (by decide))⟩

theorem hexValue_digitChar (h : n < 16) : hexValue (digitChar n) = n := by
  interval_cases n <;> decide

theorem hexValue_hexDigit (n : Nat) : hexValue (hexDigit n).1 = n % 16 :=
  hexValue_digitChar (mod_lt n (by decide))

/-- The `\u` escape of a code. -/
def uniOf (n : Nat) : Chunk :=
  .uni (hexDigit (n / 4096)) (hexDigit (n / 256)) (hexDigit (n / 16)) (hexDigit n)

theorem code?_uniOf (h : n < 65536) : (uniOf n).code? = some n := by
  simp only [uniOf, Chunk.code?, hexCode, hexValue_hexDigit, Option.some.injEq]
  omega

/-- The characters `encoding/json` escapes although a string may hold them. -/
def isHTML (c : Char) : Bool := ['<', '>', '&', '\u2028', '\u2029'].contains c

/-- The letter of the short escape of a character. -/
def shortEscape (c : Char) : Option { e : Char // isEscape e = true ∧ unescape e = c } :=
  if h : c = '"' then some ⟨'"', by subst h; decide⟩
  else if h : c = '\\' then some ⟨'\\', by subst h; decide⟩
  else if h : c = '\x08' then some ⟨'b', by subst h; decide⟩
  else if h : c = '\x0c' then some ⟨'f', by subst h; decide⟩
  else if h : c = '\n' then some ⟨'n', by subst h; decide⟩
  else if h : c = '\r' then some ⟨'r', by subst h; decide⟩
  else if h : c = '\t' then some ⟨'t', by subst h; decide⟩
  else none

/-- How `encoding/json` writes a character of a string. -/
def quoteChunk (c : Char) : Chunk :=
  match shortEscape c with
  | some e => .esc e.1 e.2.1
  | none =>
    if isHTML c then uniOf c.toNat
    else if h : isPlain c = true then .raw c h
    else uniOf c.toNat

def quote (s : String) : List Chunk := s.toList.map quoteChunk

theorem char_uniOf (h : c.toNat < 0xD800) : (uniOf c.toNat).char = c := by
  have hcode := code?_uniOf (n := c.toNat) (by omega)
  simp only [uniOf, Chunk.code?, Option.some.injEq] at hcode
  have hhi : isHighSurrogate c.toNat = false := by simp [isHighSurrogate]; omega
  have hlo : isLowSurrogate c.toNat = false := by simp [isLowSurrogate]; omega
  simp [uniOf, Chunk.char, hcode, codeChar, hhi, hlo]

theorem toNat_lt_of_isHTML (h : isHTML c = true) : c.toNat < 0xD800 := by
  simp only [isHTML, contains_iff_mem, mem_cons, not_mem_nil, or_false] at h
  rcases h with rfl | rfl | rfl | rfl | rfl <;> decide

/-- Outside the short escapes only the control characters are not plain. -/
theorem toNat_lt_of_not_isPlain (hs : shortEscape c = none) (hp : isPlain c ≠ true) : c.toNat < 0x20 := by
  have hq : c ≠ '"' := by rintro rfl; exact absurd hs (by decide)
  have hb : c ≠ '\\' := by rintro rfl; exact absurd hs (by decide)
  simp [isPlain, hq, hb] at hp
  exact hp

/-- What the proofs need of a written character: it means the character and starts no pair. -/
theorem quoteChunk_spec (c : Char) :
    (quoteChunk c).char = c ∧ ∀ n ∈ (quoteChunk c).code?, isHighSurrogate n = false := by
  have huni (h : c.toNat < 0xD800) :
      (uniOf c.toNat).char = c ∧ ∀ n ∈ (uniOf c.toNat).code?, isHighSurrogate n = false := by
    refine ⟨char_uniOf h, fun n hn => ?_⟩
    rw [code?_uniOf (by omega)] at hn
    cases hn
    simp [isHighSurrogate]
    omega
  unfold quoteChunk
  split
  · next e _ => exact ⟨e.2.2, by simp [Chunk.code?]⟩
  next hs =>
  split
  · next hh => exact huni (toNat_lt_of_isHTML hh)
  · split
    · exact ⟨rfl, by simp [Chunk.code?]⟩
    · next hp => exact huni (by have := toNat_lt_of_not_isPlain hs hp; omega)

theorem unquoteChars_quoteChunk (cs : List Char) : unquoteChars (cs.map quoteChunk) = cs := by
  induction cs with
  | nil => rfl
  | cons c cs ih =>
    obtain ⟨hchar, hcode⟩ := quoteChunk_spec c
    rw [map_cons, unquoteChars_cons _ hcode, hchar, ih]

@[simp] theorem unquote_quote (s : String) : unquote (quote s) = s := by
  rw [unquote, quote, unquoteChars_quoteChunk, String.ofList_toList]

/-- A character that is written as it is. -/
def isVerbatim (c : Char) : Bool := (shortEscape c).isNone && !isHTML c && isPlain c

theorem text_quoteChunk (h : isVerbatim c = true) : (quoteChunk c).text = [c] := by
  simp only [isVerbatim, Bool.and_eq_true, Option.isNone_iff_eq_none, Bool.not_eq_true'] at h
  obtain ⟨⟨hs, hh⟩, hp⟩ := h
  simp [quoteChunk, hs, hh, hp, Chunk.text]

theorem textAll_quote (h : ∀ c ∈ cs, isVerbatim c = true) : Chunk.textAll (quote (String.ofList cs)) = cs := by
  rw [quote, String.toList_ofList]
  induction cs with
  | nil => rfl
  | cons c cs ih =>
    rw [map_cons, Chunk.textAll_cons, text_quoteChunk (h c mem_cons_self), ih fun x hx => h x (mem_cons_of_mem c hx)]
    rfl

theorem isVerbatim_of_isDigit (h : c.isDigit = true) : isVerbatim c = true := by
  have hlo : 48 ≤ c.toNat ∧ c.toNat ≤ 57 := by
    simp only [Char.isDigit, Bool.and_eq_true, decide_eq_true_eq, UInt32.le_iff_toNat_le] at h
    exact h
  obtain ⟨hlo, hhi⟩ := hlo
  have hc : c = .ofNat c.toNat := (Char.ofNat_toNat c).symm
  generalize c.toNat = n at hlo hhi hc
  subst hc
  interval_cases n <;> decide

/-- `escapeHTML`: the HTML characters of a string that is already written. -/
def Chunk.escapeHTML : Chunk → Chunk
  | .raw c h => if isHTML c then uniOf c.toNat else .raw c h
  | k => k

theorem char_escapeHTML : k.escapeHTML.char = k.char := by
  cases k with
  | raw =>
    simp only [Chunk.escapeHTML]
    split
    · next hh => exact char_uniOf (toNat_lt_of_isHTML hh)
    · rfl
  | esc | uni => rfl

theorem code?_escapeHTML : k.escapeHTML.code? = k.code? ∨
      k.code? = none ∧ ∀ n ∈ k.escapeHTML.code?, isHighSurrogate n = false ∧ isLowSurrogate n = false := by
  cases k with
  | raw =>
    simp only [Chunk.escapeHTML]
    split
    · next hh =>
      refine .inr ⟨rfl, fun n hn => ?_⟩
      have hlt := toNat_lt_of_isHTML hh
      rw [code?_uniOf (by omega)] at hn
      cases hn
      simp [isHighSurrogate, isLowSurrogate]
      omega
    · exact .inl rfl
  | esc | uni => exact .inl rfl

theorem surrogatePair_escapeHTML (l : Chunk) : surrogatePair k.escapeHTML l.escapeHTML = surrogatePair k l := by
  have hnone (x y : Chunk) (h : x.code? = none ∨ y.code? = none) : surrogatePair x y = none := by
    unfold surrogatePair
    rcases h with h | h
    · rw [h]
    · rw [h]; cases x.code? <;> rfl
  have hoff (x y : Chunk) (h : (∀ n ∈ x.code?, isHighSurrogate n = false) ∨
      ∀ n ∈ y.code?, isLowSurrogate n = false) : surrogatePair x y = none := by
    unfold surrogatePair
    split
    · next hi lo hhi hlo =>
      rcases h with h | h
      · simp [h hi hhi]
      · simp [h lo hlo]
    · rfl
  rcases code?_escapeHTML k with hk | ⟨hk, hk'⟩
  · rcases code?_escapeHTML l with hl | ⟨hl, hl'⟩
    · simp only [surrogatePair, hk, hl]
    · rw [hnone k l (.inr hl), hoff _ _ (.inr fun n hn => (hl' n hn).2)]
  · rw [hnone k l (.inl hk), hoff _ _ (.inl fun n hn => (hk' n hn).1)]

theorem unquoteChars_escapeHTML : unquoteChars (s.map Chunk.escapeHTML) = unquoteChars s := by
  induction s using unquoteChars.induct with
  | case1 => rfl
  | case2 => simp [unquoteChars, char_escapeHTML]
  | case3 k l s c hp ih =>
    simp only [map_cons, unquoteChars, surrogatePair_escapeHTML, hp, ih]
  | case4 k l s hp ih =>
    simp only [map_cons, unquoteChars, surrogatePair_escapeHTML, hp, char_escapeHTML] at ih ⊢
    rw [ih]

@[simp] theorem unquote_escapeHTML : unquote (s.map Chunk.escapeHTML) = unquote s := by
  rw [unquote, unquoteChars_escapeHTML, unquote]

@[simp] theorem escapeHTML_escapeHTML : k.escapeHTML.escapeHTML = k.escapeHTML := by
  cases k with
  | raw c =>
    by_cases hh : isHTML c = true
    · simp [Chunk.escapeHTML, hh, uniOf]
    · simp [Chunk.escapeHTML, hh]
  | esc | uni => rfl

end Json
