import Mathlib.Data.List.Basic

/-! # Base64 with the alphabet for URLs and without padding

`encode` and `decode` are those of `base64.RawURLEncoding` in Go. A byte is its number. The decoder
skips line breaks and does not look at the bits that are left over at the end. -/

namespace Base64

open List

def alphabet : List Char := "ABCDEFGHIJKLMNOPQRSTUVWXYZabcdefghijklmnopqrstuvwxyz0123456789-_".toList

def digit (n : Nat) : Char := alphabet.getD n '_'

def value (c : Char) : Option Nat := if c ∈ alphabet then some (alphabet.idxOf c) else none

/-- Three bytes are four digits. -/
def encode : List Nat → List Char
  | a :: b :: c :: rest =>
    digit (a / 4) :: digit (a % 4 * 16 + b / 16) :: digit (b % 16 * 4 + c / 64) :: digit (c % 64) :: encode rest
  | [a, b] => [digit (a / 4), digit (a % 4 * 16 + b / 16), digit (b % 16 * 4)]
  | [a] => [digit (a / 4), digit (a % 4 * 16)]
  | [] => []

def decodeDigits : List Char → Option (List Nat)
  | c₀ :: c₁ :: c₂ :: c₃ :: rest => do
    let w ← value c₀
    let x ← value c₁
    let y ← value c₂
    let z ← value c₃
    let bytes ← decodeDigits rest
    return (w * 4 + x / 16) :: (x % 16 * 16 + y / 4) :: (y % 4 * 64 + z) :: bytes
  | [c₀, c₁, c₂] => do
    let w ← value c₀
    let x ← value c₁
    let y ← value c₂
    return [w * 4 + x / 16, x % 16 * 16 + y / 4]
  | [c₀, c₁] => do
    let w ← value c₀
    let x ← value c₁
    return [w * 4 + x / 16]
  | [_] => none
  | [] => some []

def decode (text : List Char) : Option (List Nat) := decodeDigits (text.filter fun c => c ≠ '\r' && c ≠ '\n')

variable {n : Nat} {bytes : List Nat}

theorem value_digit (h : n < 64) : value (digit n) = some n := by
  have hall : ∀ n : Fin 64, value (digit n) = some n.val := by decide +kernel
  exact hall ⟨n, h⟩

theorem digit_mem (h : n < 64) : digit n ∈ alphabet := by
  have hall : ∀ n : Fin 64, digit n ∈ alphabet := by decide +kernel
  exact hall ⟨n, h⟩

/-- What is written is read again. -/
theorem decodeDigits_encode (h : ∀ b ∈ bytes, b < 256) : decodeDigits (encode bytes) = some bytes := by
  fun_induction encode bytes with
  | case1 a b c rest ih =>
    simp only [forall_mem_cons] at h
    obtain ⟨ha, hb, hc, hrest⟩ := h
    rw [decodeDigits, value_digit (by omega), value_digit (by omega), value_digit (by omega), value_digit (by omega),
      ih hrest]
    simp only [Option.bind_eq_bind, Option.bind_some, Option.pure_def, Option.some.injEq, cons.injEq, and_true]
    omega
  | case2 a b =>
    simp only [forall_mem_cons] at h
    obtain ⟨ha, hb, -⟩ := h
    rw [decodeDigits, value_digit (by omega), value_digit (by omega), value_digit (by omega)]
    simp only [Option.bind_eq_bind, Option.bind_some, Option.pure_def, Option.some.injEq, cons.injEq, and_true]
    omega
  | case3 a =>
    have ha := h a mem_cons_self
    rw [decodeDigits, value_digit (by omega), value_digit (by omega)]
    simp only [Option.bind_eq_bind, Option.bind_some, Option.pure_def, Option.some.injEq, cons.injEq, and_true]
    omega
  | case4 => rfl

theorem mem_alphabet_of_encode (h : ∀ b ∈ bytes, b < 256) : ∀ c ∈ encode bytes, c ∈ alphabet := by
  fun_induction encode bytes with
  | case1 a b c rest ih =>
    simp only [forall_mem_cons] at h ⊢
    obtain ⟨ha, hb, hc, hrest⟩ := h
    exact ⟨digit_mem (by omega), digit_mem (by omega), digit_mem (by omega), digit_mem (by omega), ih hrest⟩
  | case2 a b =>
    simp only [forall_mem_cons] at h ⊢
    obtain ⟨ha, hb, -⟩ := h
    exact ⟨digit_mem (by omega), digit_mem (by omega), digit_mem (by omega), by simp⟩
  | case3 a =>
    have ha := h a mem_cons_self
    simp only [forall_mem_cons]
    exact ⟨digit_mem (by omega), digit_mem (by omega), by simp⟩
  | case4 => simp

theorem decode_encode (h : ∀ b ∈ bytes, b < 256) : decode (encode bytes) = some bytes := by
  have hbreaks : (alphabet.all fun c => c ≠ '\r' && c ≠ '\n') = true := by decide +kernel
  rw [decode, filter_eq_self.mpr fun c hc => all_eq_true.mp hbreaks c (mem_alphabet_of_encode h c hc),
    decodeDigits_encode h]

theorem length_encode (bytes : List Nat) :
    4 * bytes.length ≤ 3 * (encode bytes).length ∧ 3 * (encode bytes).length ≤ 4 * bytes.length + 2 := by
  fun_induction encode bytes with
  | case1 a b c rest ih =>
    simp only [length_cons]
    omega
  | _ => simp

end Base64
