import Mathlib.Algebra.Group.Nat.Defs
import Mathlib.Data.List.Basic

/-! # Bytes, as Go reads and writes them

A Go string is a sequence of bytes. `encodeHex` and `decodeHex` are those of `encoding/hex`, `parseInt` is
`strconv.ParseInt` to the base ten with 64 bits, and `runeWidth` is how many bytes a `range` over a string
goes on. -/

namespace Bytes

open List Option

/-- The bytes of a text in ASCII. -/
def ascii (text : String) : List UInt8 := text.toList.map fun c => UInt8.ofNat c.toNat

/-- A separator that does not occur in the front tells where it ends. -/
theorem append_sep_inj {sep : UInt8} {xs ys xs' ys' : List UInt8} (hx : sep ∉ xs) (hy : sep ∉ ys)
    (h : xs ++ sep :: xs' = ys ++ sep :: ys') : xs = ys ∧ xs' = ys' := by
  -- a longer one would hold the separator of the other
  rcases append_eq_append_iff.mp h with ⟨c, rfl, hc⟩ | ⟨c, rfl, hc⟩
  · cases c with
    | nil => simpa using hc
    | cons => simp_all
  · cases c with
    | nil => simpa using hc.symm
    | cons => simp_all

/-! ## Hexadecimal -/

def hexDigit (n : Nat) : UInt8 := if n < 10 then UInt8.ofNat (48 + n) else UInt8.ofNat (87 + n)

/-- The value of a digit; capital letters are digits as well. -/
def hexValue (c : UInt8) : Option Nat :=
  if 48 ≤ c.toNat ∧ c.toNat ≤ 57 then some (c.toNat - 48)
  else if 97 ≤ c.toNat ∧ c.toNat ≤ 102 then some (c.toNat - 87)
  else if 65 ≤ c.toNat ∧ c.toNat ≤ 70 then some (c.toNat - 55)
  else none

def encodeHex (bs : List UInt8) : List UInt8 :=
  bs.flatMap fun b => [hexDigit (b.toNat / 16), hexDigit (b.toNat % 16)]

def decodeHex : List UInt8 → Option (List UInt8)
  | [] => some []
  | [_] => none
  | c :: d :: rest => do
    let high ← hexValue c
    let low ← hexValue d
    let bs ← decodeHex rest
    pure (UInt8.ofNat (16 * high + low) :: bs)

/-- Not a capital letter. -/
def notUpper (c : UInt8) : Prop := ¬ (65 ≤ c.toNat ∧ c.toNat ≤ 90)

variable {n : Nat}

theorem toNat_ofNat (h : n < 256) : (UInt8.ofNat n).toNat = n := by
  rw [UInt8.toNat_ofNat', Nat.mod_eq_of_lt h]

theorem toNat_hexDigit (h : n < 16) : (hexDigit n).toNat = if n < 10 then 48 + n else 87 + n := by
  unfold hexDigit
  split
  · exact toNat_ofNat (by omega)
  · exact toNat_ofNat (by omega)

theorem hexValue_hexDigit (h : n < 16) : hexValue (hexDigit n) = some n := by
  unfold hexValue
  rw [toNat_hexDigit h]
  split_ifs <;> simp_all <;> omega

variable {c : UInt8}

/-- A digit that is not a capital is the one that its value is written with. -/
theorem hexDigit_hexValue (h : hexValue c = some n) (hc : notUpper c) : n < 16 ∧ hexDigit n = c := by
  unfold notUpper at hc
  unfold hexValue at h
  split_ifs at h with h₁ h₂ h₃
  · have hn := Option.some.inj h
    refine ⟨by omega, UInt8.toNat_inj.mp ?_⟩
    rw [toNat_hexDigit (by omega)]
    split <;> omega
  · have hn := Option.some.inj h
    refine ⟨by omega, UInt8.toNat_inj.mp ?_⟩
    rw [toNat_hexDigit (by omega)]
    split <;> omega
  · omega

theorem hexValue_lt (h : hexValue c = some n) : n < 16 ∧ c.toNat < 128 := by
  unfold hexValue at h
  split_ifs at h <;> have hn := Option.some.inj h <;> omega

theorem length_encodeHex (bs : List UInt8) : (encodeHex bs).length = 2 * bs.length := by
  induction bs with
  | nil => rfl
  | cons b bs ih =>
    simp only [encodeHex, flatMap_cons, length_append, length_cons, length_nil] at ih ⊢
    omega

variable {bs : List UInt8}

theorem notUpper_of_mem_encodeHex (h : c ∈ encodeHex bs) : notUpper c := by
  obtain ⟨b, -, hc⟩ := mem_flatMap.mp h
  have hb := b.toNat_lt
  unfold notUpper
  rcases mem_pair.mp hc with rfl | rfl
  · rw [toNat_hexDigit (by omega)]
    split <;> omega
  · rw [toNat_hexDigit (by omega)]
    split <;> omega

theorem decodeHex_encodeHex (bs : List UInt8) : decodeHex (encodeHex bs) = some bs := by
  induction bs with
  | nil => rfl
  | cons b bs ih =>
    have hb := b.toNat_lt
    have hjoin : 16 * (b.toNat / 16) + b.toNat % 16 = b.toNat := by omega
    change decodeHex (hexDigit (b.toNat / 16) :: hexDigit (b.toNat % 16) :: encodeHex bs) = _
    rw [decodeHex, hexValue_hexDigit (by omega), hexValue_hexDigit (by omega), ih]
    simp only [Option.bind_eq_bind, Option.bind_some, Option.pure_def, hjoin, UInt8.ofNat_toNat]

variable {text : List UInt8}

/-- A text in small letters that can be decoded is what the bytes are encoded as. -/
theorem encodeHex_decodeHex (h : decodeHex text = some bs) (hlower : ∀ c ∈ text, notUpper c) : encodeHex bs = text := by
  induction text using decodeHex.induct generalizing bs with
  | case1 =>
    cases h
    rfl
  | case2 => cases h
  | case3 c d rest ih =>
    simp only [decodeHex, bind_eq_bind, bind_eq_some_iff] at h
    obtain ⟨high, hhigh, low, hlow, bs', hrest, heq⟩ := h
    cases heq
    obtain ⟨hlt, rfl⟩ := hexDigit_hexValue hhigh (hlower c (by simp))
    obtain ⟨hlt', rfl⟩ := hexDigit_hexValue hlow (hlower d (by simp))
    have hvalue : (UInt8.ofNat (16 * high + low)).toNat = 16 * high + low := toNat_ofNat (by omega)
    change hexDigit _ :: hexDigit _ :: encodeHex bs' = _
    rw [ih hrest fun c hc => hlower c (by simp [hc])]
    congr 2 <;> congr 1 <;> omega

theorem lt_of_decodeHex (h : decodeHex text = some bs) : ∀ c ∈ text, c.toNat < 128 := by
  induction text using decodeHex.induct generalizing bs with
  | case1 => simp
  | case2 => cases h
  | case3 c d rest ih =>
    simp only [decodeHex, bind_eq_bind, bind_eq_some_iff] at h
    obtain ⟨high, hhigh, low, hlow, bs', hrest, -⟩ := h
    intro e he
    rcases mem_cons.mp he with rfl | he
    · exact (hexValue_lt hhigh).2
    rcases mem_cons.mp he with rfl | he
    · exact (hexValue_lt hlow).2
    · exact ih hrest e he

/-! ## Decimal numbers -/

/-- The value of digits after others. -/
def decimalValue (n : Nat) (digits : List UInt8) : Nat := digits.foldl (fun n c => 10 * n + (c.toNat - 48)) n

def isDigit (c : UInt8) : Bool := decide (48 ≤ c.toNat) && decide (c.toNat ≤ 57)

/-- Digits only, and at least one. -/
def parseDigits (digits : List UInt8) : Option Nat :=
  if digits ≠ [] ∧ digits.all isDigit = true then some (decimalValue 0 digits) else none

/-- `strconv.ParseInt` to the base ten with 64 bits. -/
def parseInt : List UInt8 → Option Int64
  | 45 :: digits => (parseDigits digits).bind fun n => if n ≤ 2 ^ 63 then some (Int64.ofInt (-n)) else none
  | 43 :: digits => (parseDigits digits).bind fun n => if n < 2 ^ 63 then some (Int64.ofInt n) else none
  | digits => (parseDigits digits).bind fun n => if n < 2 ^ 63 then some (Int64.ofInt n) else none

theorem digits_of_parseDigits {digits : List UInt8} (h : parseDigits digits = some n) :
    ∀ c ∈ digits, isDigit c = true := by
  unfold parseDigits at h
  split at h
  next hdigits => exact all_eq_true.mp hdigits.2
  next => cases h

theorem bounds_of_parseInt {t : Int64} (h : parseInt text = some t) : ∀ c ∈ text, 43 ≤ c.toNat ∧ c.toNat ≤ 57 := by
  have hdigit : ∀ c, isDigit c = true → 43 ≤ c.toNat ∧ c.toNat ≤ 57 := by
    intro c hc
    simp only [isDigit, Bool.and_eq_true, decide_eq_true_eq] at hc
    omega
  unfold parseInt at h
  split at h
  · obtain ⟨n, hn, -⟩ := bind_eq_some_iff.mp h
    rintro c (_ | ⟨_, hc⟩)
    · decide
    · exact hdigit c (digits_of_parseDigits hn c hc)
  · obtain ⟨n, hn, -⟩ := bind_eq_some_iff.mp h
    rintro c (_ | ⟨_, hc⟩)
    · decide
    · exact hdigit c (digits_of_parseDigits hn c hc)
  · obtain ⟨n, hn, -⟩ := bind_eq_some_iff.mp h
    exact fun c hc => hdigit c (digits_of_parseDigits hn c hc)

/-! ## Runes -/

/-- How many bytes a `range` over a string takes for the next rune: what does not encode one is taken alone. -/
def runeWidth (first : UInt8) (rest : List UInt8) : Nat :=
  let within (n : Nat) (low high : Nat) : Bool :=
    (rest[n]?).any fun c => decide (low ≤ c.toNat) && decide (c.toNat ≤ high)
  let b := first.toNat
  if b < 0xC2 then 1
  else if b ≤ 0xDF then if within 0 0x80 0xBF then 2 else 1
  else if b ≤ 0xEF then
    if within 0 (if b = 0xE0 then 0xA0 else 0x80) (if b = 0xED then 0x9F else 0xBF) && within 1 0x80 0xBF then 3 else 1
  else if b ≤ 0xF4 then
    if within 0 (if b = 0xF0 then 0x90 else 0x80) (if b = 0xF4 then 0x8F else 0xBF) && within 1 0x80 0xBF
      && within 2 0x80 0xBF then 4 else 1
  else 1

end Bytes
