import Mathlib.Data.List.DropRight

/-! # Text, as Go's `strings` package treats it

`isSpace` is `unicode.IsSpace` and `trimSpace` is `strings.TrimSpace`. `lowerRune` is `unicode.ToLower` for
comparing with ASCII words: of the characters outside ASCII only the Kelvin sign and the dotted capital
I have an ASCII lower case, and the others are left as they are. -/

namespace Text

open List

def isSpace (c : Char) : Bool :=
  let n := c.toNat
  (9 ≤ n && n ≤ 13) || n = 0x20 || n = 0x85 || n = 0xA0 || n = 0x1680 || (0x2000 ≤ n && n ≤ 0x200A)
    || n = 0x2028 || n = 0x2029 || n = 0x202F || n = 0x205F || n = 0x3000

def trimSpace (s : String) : String :=
  String.ofList ((s.toList.dropWhile isSpace).reverse.dropWhile isSpace).reverse

def lowerRune (c : Char) : Char :=
  if c.toNat = 0x212A then 'k' else if c.toNat = 0x130 then 'i' else c.toLower

def toLower (s : String) : String := String.ofList (s.toList.map lowerRune)

def hasPrefix (s p : String) : Bool := p.toList.isPrefixOf s.toList

def cutPrefix (s p : String) : Option String :=
  if hasPrefix s p then some (String.ofList (s.toList.drop p.toList.length)) else none

def cutSuffix (s p : String) : Option String :=
  if p.toList.isSuffixOf s.toList then some (String.ofList (s.toList.take (s.toList.length - p.toList.length)))
  else none

def isControl (c : Char) : Bool := c.toNat < 0x20 || (0x7F ≤ c.toNat && c.toNat ≤ 0x9F)

theorem cutPrefix_eq_some_iff {s p t : String} : cutPrefix s p = some t ↔ s = p ++ t := by
  unfold cutPrefix hasPrefix
  rw [← String.toList_inj, String.toList_append]
  constructor
  · intro h
    split at h
    next hprefix =>
      obtain ⟨rest, hrest⟩ := isPrefixOf_iff_prefix.mp hprefix
      rw [← Option.some.inj h, String.toList_ofList, ← hrest, drop_left]
    next => cases h
  · intro h
    rw [if_pos (List.isPrefixOf_iff_prefix.mpr ⟨_, h.symm⟩), h, drop_left, String.ofList_toList]

theorem cutSuffix_eq_some_iff {s p t : String} : cutSuffix s p = some t ↔ s = t ++ p := by
  unfold cutSuffix
  rw [← String.toList_inj, String.toList_append]
  constructor
  · intro h
    split at h
    next hsuffix =>
      obtain ⟨front, hfront⟩ := isSuffixOf_iff_suffix.mp hsuffix
      rw [← Option.some.inj h, String.toList_ofList, ← hfront, length_append, Nat.add_sub_cancel, take_left]
    next => cases h
  · intro h
    rw [if_pos (isSuffixOf_iff_suffix.mpr ⟨_, h.symm⟩), h, length_append, Nat.add_sub_cancel, take_left,
      String.ofList_toList]

/-! ## Runs of characters

Reading the longest run of characters with a property gives a run back that is followed by something
else. -/

section

variable {p : Char → Bool} {run rest : List Char}

theorem takeWhile_run (hrun : ∀ c ∈ run, p c = true) (hrest : ∀ c ∈ rest.head?, p c = false) :
    (run ++ rest).takeWhile p = run := by
  rw [takeWhile_append_of_pos hrun]
  cases rest with
  | nil => simp
  | cons c => simp [hrest c rfl]

theorem dropWhile_run (hrun : ∀ c ∈ run, p c = true) (hrest : ∀ c ∈ rest.head?, p c = false) :
    (run ++ rest).dropWhile p = rest := by
  rw [dropWhile_append_of_pos hrun]
  cases rest with
  | nil => simp
  | cons c => simp [hrest c rfl]

end

/-! ## Trimming -/

theorem trimSpace_idem (s : String) : trimSpace (trimSpace s) = trimSpace s := by
  unfold trimSpace
  rw [String.toList_ofList]
  congr 2
  -- what is left after trimming on the right starts as before, so not with a space
  have hstart : ((s.toList.dropWhile isSpace).rdropWhile isSpace).dropWhile isSpace =
      (s.toList.dropWhile isSpace).rdropWhile isSpace := by
    refine dropWhile_eq_self_iff.mpr fun hl => ?_
    rw [( rdropWhile_prefix isSpace (s.toList.dropWhile isSpace)).getElem hl]
    exact dropWhile_get_zero_not isSpace s.toList _
  show (((s.toList.dropWhile isSpace).rdropWhile isSpace).dropWhile isSpace).reverse.dropWhile isSpace = _
  rw [hstart]
  show (((s.toList.dropWhile isSpace).reverse.dropWhile isSpace).reverse.reverse).dropWhile isSpace = _
  rw [reverse_reverse, dropWhile_idempotent]

end Text
