import Mathlib.Data.List.Nodup
import RelayHub.Lib.Json

/-! # The grammar of JSON texts

`Value cs v rest` says that a text starts with a JSON value, as RFC 8259 derives it, with white space wherever the
grammar allows it. `parse_sound` holds the reader to the grammar: what `parse` accepts is one value, and if the reader
looks for repeated keys, no object has any.

The second part is about strings. A JSON string is a list of UTF-16 code units, and `unquote` makes one of half a
surrogate pair that no text can hold. `units_eq_of_paired` says that nothing else is lost. -/

namespace Json

open List Chunk

/-! ## Derivations -/

/-- White space, up to the rest. -/
def White (cs rest : List Char) : Prop := ∃ ws, cs = ws ++ rest ∧ ∀ c ∈ ws, isWhite c = true

theorem white_skipWhite (cs : List Char) : White cs (skipWhite cs) :=
  ⟨cs.takeWhile isWhite, takeWhile_append_dropWhile.symm, fun _ hc => mem_takeWhile_imp hc⟩

mutual
/-- A text that starts with a value, and what follows it. -/
inductive Value : List Char → Json → List Char → Prop where
  | null {rest : List Char} : Value ('n' :: 'u' :: 'l' :: 'l' :: rest) .null rest
  | true {rest : List Char} : Value ('t' :: 'r' :: 'u' :: 'e' :: rest) (.bool true) rest
  | false {rest : List Char} : Value ('f' :: 'a' :: 'l' :: 's' :: 'e' :: rest) (.bool false) rest
  | num {n : Number} {rest : List Char} : Value (n.text ++ rest) (.num n) rest
  | str {s : List Chunk} {rest : List Char} : Value ('"' :: (textAll s ++ '"' :: rest)) (.str s) rest
  | emptyArr {cs rest : List Char} : White cs (']' :: rest) → Value ('[' :: cs) (.arr []) rest
  | arr {cs rest : List Char} {vs : List Json} : Elements cs vs rest → Value ('[' :: cs) (.arr vs) rest
  | emptyObj {cs rest : List Char} : White cs ('}' :: rest) → Value ('{' :: cs) (.obj []) rest
  | obj {cs rest : List Char} {ms : List (List Chunk × Json)} : Members cs ms rest → Value ('{' :: cs) (.obj ms) rest

/-- The elements of an array and its closing bracket. -/
inductive Elements : List Char → List Json → List Char → Prop where
  | last {cs cs₁ cs₂ rest : List Char} {v : Json} : White cs cs₁ → Value cs₁ v cs₂ → White cs₂ (']' :: rest) →
      Elements cs [v] rest
  | cons {cs cs₁ cs₂ cs₃ rest : List Char} {v : Json} {vs : List Json} : White cs cs₁ → Value cs₁ v cs₂ →
      White cs₂ (',' :: cs₃) → Elements cs₃ vs rest → Elements cs (v :: vs) rest

/-- The members of an object and its closing bracket. -/
inductive Members : List Char → List (List Chunk × Json) → List Char → Prop where
  | last {cs cs₁ cs₂ cs₃ cs₄ rest : List Char} {k : List Chunk} {v : Json} :
      White cs ('"' :: (textAll k ++ '"' :: cs₁)) → White cs₁ (':' :: cs₂) → White cs₂ cs₃ → Value cs₃ v cs₄ →
      White cs₄ ('}' :: rest) → Members cs [(k, v)] rest
  | cons {cs cs₁ cs₂ cs₃ cs₄ cs₅ rest : List Char} {k : List Chunk} {v : Json} {ms : List (List Chunk × Json)} :
      White cs ('"' :: (textAll k ++ '"' :: cs₁)) → White cs₁ (':' :: cs₂) → White cs₂ cs₃ → Value cs₃ v cs₄ →
      White cs₄ (',' :: cs₅) → Members cs₅ ms rest → Members cs ((k, v) :: ms) rest
end

/-- A text that is one value. -/
def IsText (cs : List Char) (v : Json) : Prop := ∃ cs₁ cs₂, White cs cs₁ ∧ Value cs₁ v cs₂ ∧ White cs₂ []

/-! ## Soundness -/

variable {cs rest : List Char} {s : List Chunk} {k : Chunk} {v : Json} {c : Char} {ms : List (List Chunk × Json)}

theorem stringBody_sound_cons (ih : ∀ {s : List Chunk}, stringBody cs = some (s, rest) → cs = textAll s ++ '"' :: rest)
    (h : (stringBody cs).map (fun r => (k :: r.1, r.2)) = some (s, rest)) :
    k.text ++ cs = textAll s ++ '"' :: rest := by
  obtain ⟨⟨s', rest'⟩, hbody, heq⟩ := Option.map_eq_some_iff.mp h
  obtain ⟨rfl, rfl⟩ := Prod.mk.inj heq
  rw [textAll_cons, append_assoc, ← ih hbody]

theorem stringBody_sound (h : stringBody cs = some (s, rest)) : cs = textAll s ++ '"' :: rest := by
  fun_induction stringBody cs generalizing s with
  | case1 | case3 | case6 | case7 | case8 | case10 => cases h
  | case2 =>
    cases h
    rfl
  | case4 e cs he hne ih | case5 w x y z cs hhex hne hesc ih | case9 c cs hq hb hplain ih =>
    exact stringBody_sound_cons ih h

theorem scalar_sound (h : scalar cs = .ok (v, rest)) : Value cs v rest := by
  unfold scalar at h
  split at h
  · cases h; exact .null
  · cases h; exact .true
  · cases h; exact .false
  · split at h
    next n cs' hn =>
      cases h
      unfold number at hn
      split at hn
      next hv =>
        cases hn
        have hnum : Value (cs.takeWhile isNumChar ++ cs.dropWhile isNumChar) _ _ := .num (n := ⟨_, hv⟩)
        rwa [takeWhile_append_dropWhile] at hnum
      · cases hn
    · cases h

theorem scalar_unique (u : Bool) (h : scalar cs = .ok (v, rest)) : (u && repeatsKey v) = false := by
  unfold scalar at h
  split at h
  · cases h; simp [repeatsKey]
  · cases h; simp [repeatsKey]
  · cases h; simp [repeatsKey]
  · split at h
    · cases h; simp [repeatsKey]
    · cases h

theorem White.trans {a b c : List Char} (hab : White a b) (hbc : White b c) : White a c := by
  obtain ⟨ws, rfl, hws⟩ := hab
  obtain ⟨ws', rfl, hws'⟩ := hbc
  exact ⟨ws ++ ws', (append_assoc ..).symm, forall_mem_append.mpr ⟨hws, hws'⟩⟩

theorem Elements.of_skipWhite {vs : List Json} (h : Elements (skipWhite cs) vs rest) : Elements cs vs rest := by
  cases h with
  | last hwhite hread hend => exact .last ((white_skipWhite cs).trans hwhite) hread hend
  | cons hwhite hread hcomma hrest => exact .cons ((white_skipWhite cs).trans hwhite) hread hcomma hrest

theorem Members.of_skipWhite (h : Members (skipWhite cs) ms rest) : Members cs ms rest := by
  cases h with
  | last hkey hcolon hwhite hread hend => exact .last ((white_skipWhite cs).trans hkey) hcolon hwhite hread hend
  | cons hkey hcolon hwhite hread hcomma hrest =>
    exact .cons ((white_skipWhite cs).trans hkey) hcolon hwhite hread hcomma hrest

/-- What the reader guarantees of a value: it is derived, and no object of it has a key twice. -/
theorem reader_sound (u : Bool) (n : Nat) :
    (∀ {cs rest v}, value u n cs = .ok (v, rest) → ∃ cs₁, White cs cs₁ ∧ Value cs₁ v rest ∧
      (u && repeatsKey v) = false) ∧
    (∀ {cs rest vs}, elements u n cs = .ok (vs, rest) → Elements cs vs rest ∧ (u && elementsRepeat vs) = false) ∧
    ∀ {seen cs rest ms}, members u n seen cs = .ok (ms, rest) → Members cs ms rest ∧
      (u && membersRepeat seen ms) = false := by
  induction n with
  | zero =>
    refine ⟨?_, ?_, ?_⟩ <;> intros <;> simp_all [value, elements, members]
  | succ n ih =>
    obtain ⟨hvalue, helements, hmembers⟩ := ih
    refine ⟨fun {cs rest v} h => ?_, fun {cs rest vs} h => ?_, fun {seen cs rest ms} h => ?_⟩
    · rw [value.eq_def] at h
      simp only at h
      refine ⟨skipWhite cs, white_skipWhite cs, ?_⟩
      split at h
      · cases h
      next cs' hcs =>
      rw [hcs]
      split at h
      next hc =>
        subst hc
        split at h
        next hend =>
          cases h
          exact ⟨.emptyObj (hend ▸ white_skipWhite cs'), by simp [repeatsKey, membersRepeat]⟩
        · split at h
          next hms =>
            cases h
            obtain ⟨hread, hunique⟩ := hmembers hms
            exact ⟨.obj (hread.of_skipWhite), hunique⟩
          · cases h
      next =>
      split at h
      next hc =>
        subst hc
        split at h
        next hend =>
          cases h
          exact ⟨.emptyArr (hend ▸ white_skipWhite cs'), by simp [repeatsKey, elementsRepeat]⟩
        · split at h
          next hvs =>
            cases h
            obtain ⟨hread, hunique⟩ := helements hvs
            exact ⟨.arr (hread.of_skipWhite), hunique⟩
          · cases h
      next =>
      split at h
      next hc =>
        subst hc
        split at h
        next hs =>
          cases h
          rw [stringBody_sound hs]
          exact ⟨.str, by simp [repeatsKey]⟩
        · cases h
      next => exact ⟨scalar_sound h, scalar_unique u h⟩
    · rw [elements.eq_def] at h
      simp only at h
      split at h
      · cases h
      next cs' hv =>
      obtain ⟨cs₁, hwhite, hread, hunique⟩ := hvalue hv
      have hnext := white_skipWhite cs'
      split at h
      next hcomma =>
        split at h
        next hvs =>
          cases h
          obtain ⟨hread', hunique'⟩ := helements hvs
          refine ⟨.cons hwhite hread (hcomma ▸ hnext) hread', ?_⟩
          rw [elementsRepeat, Bool.and_or_distrib_left, hunique, hunique', Bool.or_self]
        · cases h
      next hend =>
        cases h
        refine ⟨.last hwhite hread (hend ▸ hnext), ?_⟩
        rw [elementsRepeat, elementsRepeat, Bool.or_false, hunique]
      · cases h
    · rw [members.eq_def] at h
      simp only at h
      have hkey := white_skipWhite cs
      split at h
      next hquote =>
        split at h
        · cases h
        next cs₂ hk =>
        rw [hquote, stringBody_sound hk] at hkey
        split at h
        · cases h
        next hfresh =>
        have hcolon := white_skipWhite cs₂
        split at h
        next hcs₃ =>
          rw [hcs₃] at hcolon
          split at h
          · cases h
          next cs₄ hv =>
          obtain ⟨cs₅, hwhite, hread, hunique⟩ := hvalue hv
          have hnext := white_skipWhite cs₄
          split at h
          next hcomma =>
            split at h
            next hms =>
              cases h
              obtain ⟨hread', hunique'⟩ := hmembers hms
              refine ⟨.cons hkey hcolon hwhite hread (hcomma ▸ hnext) hread', ?_⟩
              rw [membersRepeat, Bool.and_or_distrib_left, Bool.and_or_distrib_left, hunique, hunique']
              simpa using hfresh
            · cases h
          next hend =>
            cases h
            refine ⟨.last hkey hcolon hwhite hread (hend ▸ hnext), ?_⟩
            rw [membersRepeat, membersRepeat, Bool.or_false, Bool.and_or_distrib_left, hunique]
            simpa using hfresh
          · cases h
        · cases h
      · cases h

/-- **What is read is a JSON text**, and a reader that looks for them finds no repeated keys in it. -/
theorem parse_sound {u : Bool} (h : parse u cs = .ok v) : IsText cs v ∧ (u = true → repeatsKey v = false) := by
  unfold parse at h
  split at h
  · cases h
  next rest hv =>
  split at h
  next hend =>
    cases h
    obtain ⟨cs₁, hwhite, hread, hunique⟩ := (reader_sound u _).1 hv
    refine ⟨⟨cs₁, rest, hwhite, hread, hend ▸ white_skipWhite rest⟩, ?_⟩
    rintro rfl
    simpa using hunique
  · cases h

/-! ## Keys -/

/-- The members of an object by name. -/
def fields (ms : List (List Chunk × Json)) : List (String × Json) := ms.map fun m => (unquote m.1, m.2)

theorem membersRepeat_eq_false {seen : List String} (h : membersRepeat seen ms = false) :
    ((fields ms).map Prod.fst).Nodup ∧ (∀ name ∈ (fields ms).map Prod.fst, name ∉ seen) ∧
      ∀ m ∈ ms, repeatsKey m.2 = false := by
  induction ms generalizing seen with
  | nil => simp [fields]
  | cons m ms ih =>
    obtain ⟨k, v⟩ := m
    rw [membersRepeat, Bool.or_eq_false_iff, Bool.or_eq_false_iff] at h
    obtain ⟨hnodup, hnew, hvalues⟩ := ih h.2
    have hk : unquote k ∉ seen := by simpa using h.1.1
    refine ⟨?_, ?_, ?_⟩
    · refine nodup_cons.mpr ⟨fun hmem => ?_, hnodup⟩
      exact hnew _ hmem mem_cons_self
    · intro name hname
      rcases mem_cons.mp hname with rfl | hname
      · exact hk
      · exact fun hseen => hnew name hname (mem_cons_of_mem _ hseen)
    · intro m hm
      rcases mem_cons.mp hm with rfl | hm
      · exact h.1.2
      · exact hvalues m hm

section Fields

variable {ms : List (List Chunk × Json)} {name : String} {v : Json}

theorem lookup_eq_some_iff (h : ((fields ms).map Prod.fst).Nodup) : lookup ms name = some v ↔
    (name, v) ∈ fields ms := by
  constructor
  · intro hv
    obtain ⟨m, hm, rfl⟩ := Option.map_eq_some_iff.mp hv
    have hname : unquote m.1 = name := by simpa using find?_some hm
    exact mem_map.mpr ⟨m, mem_reverse.mp (mem_of_find?_eq_some hm), by rw [hname]⟩
  · intro hmem
    obtain ⟨m, hm, heq⟩ := mem_map.mp hmem
    obtain ⟨rfl, rfl⟩ := Prod.mk.inj heq
    cases hfind : ms.reverse.find? (fun m' => unquote m'.1 = unquote m.1) with
    | none => simpa using find?_eq_none.mp hfind m (mem_reverse.mpr hm)
    | some m' =>
      have hm' : m' ∈ ms := mem_reverse.mp (mem_of_find?_eq_some hfind)
      have hkey : unquote m'.1 = unquote m.1 := by simpa using find?_some hfind
      have hsame : (unquote m'.1, m'.2) = (unquote m.1, m.2) :=
        inj_on_of_nodup_map h (mem_map_of_mem hm') (mem_map_of_mem hm) hkey
      rw [lookup, hfind, Option.map_some, (Prod.mk.inj hsame).2]

theorem fields_perm {fs : List (String × Json)} (h : ((fields ms).map Prod.fst).Nodup) (hfs : (fs.map Prod.fst).Nodup)
    (honly : ∀ name ∈ (fields ms).map Prod.fst, name ∈ fs.map Prod.fst)
    (hlookup : ∀ f ∈ fs, lookup ms f.1 = some f.2) : (fields ms).Perm fs := by
  refine (perm_ext_iff_of_nodup (.of_map _ h) (.of_map _ hfs)).mpr fun f => ⟨fun hf => ?_, fun hf => ?_⟩
  · obtain ⟨f', hf', hname⟩ := mem_map.mp (honly f.1 (mem_map_of_mem hf))
    have hmem := (lookup_eq_some_iff h).mp (hlookup f' hf')
    obtain rfl : f' = f := inj_on_of_nodup_map h hmem hf hname
    exact hf'
  · exact (lookup_eq_some_iff h).mp (hlookup f hf)

end Fields

/-! ## Code units -/

/-- The UTF-16 code units of a character. -/
def utf16 (n : Nat) : List Nat :=
  if n < 0x10000 then [n] else [0xD800 + (n - 0x10000) / 0x400, 0xDC00 + (n - 0x10000) % 0x400]

/-- The code units that a chunk stands for. -/
def Chunk.units : Chunk → List Nat
  | .raw c _ => utf16 c.toNat
  | .esc c _ => [(unescape c).toNat]
  | .uni a b c d => [hexCode a b c d]

/-- The value of a JSON string. -/
def units (s : List Chunk) : List Nat := s.flatMap Chunk.units

/-- The escape of half a surrogate pair. -/
def Chunk.isSurrogate (k : Chunk) : Bool := k.code?.any fun n => isHighSurrogate n || isLowSurrogate n

/-- Escapes of surrogates stand in pairs. -/
def paired : List Chunk → Bool
  | [] => true
  | [k] => !k.isSurrogate
  | k :: l :: s =>
    match surrogatePair k l with
    | some _ => paired s
    | none => !k.isSurrogate && paired (l :: s)

theorem toNat_charOfNat {n : Nat} (h : n.isValidChar) : (Char.ofNat n).toNat = n := by
  rw [Char.ofNat, dif_pos h]
  rfl

theorem hexValue_lt (h : isHex c = true) : hexValue c < 16 := by
  have h0 : '0'.val.toNat = 48 := rfl
  have h9 : '9'.val.toNat = 57 := rfl
  have ha : 'a'.val.toNat = 97 := rfl
  have hf : 'f'.val.toNat = 102 := rfl
  have hA : 'A'.val.toNat = 65 := rfl
  have hF : 'F'.val.toNat = 70 := rfl
  unfold hexValue
  simp only [isHex, Bool.or_eq_true, Bool.and_eq_true, decide_eq_true_eq, Char.isDigit, Char.le_def,
    UInt32.le_iff_toNat_le, ge_iff_le, Char.toNat] at h ⊢
  split
  · omega
  · split <;> omega

theorem hexCode_lt (a b c d : HexDigit) : hexCode a b c d < 0x10000 := by
  have ha := hexValue_lt a.2
  have hb := hexValue_lt b.2
  have hc := hexValue_lt c.2
  have hd := hexValue_lt d.2
  unfold hexCode
  omega

theorem unescape_lt (h : isEscape c = true) : (unescape c).toNat < 0x10000 := by
  simp only [isEscape, contains_iff_mem, mem_cons, not_mem_nil, or_false] at h
  rcases h with rfl | rfl | rfl | rfl | rfl | rfl | rfl | rfl <;> decide

theorem Chunk.units_eq (h : k.isSurrogate = false) : k.units = utf16 k.char.toNat := by
  cases k with
  | raw => rfl
  | esc c hc => exact (if_pos (unescape_lt hc)).symm
  | uni a b c d =>
    have hlt := hexCode_lt a b c d
    simp only [isSurrogate, code?, Option.any_some] at h
    have hvalid : (hexCode a b c d).isValidChar := by
      simp only [isHighSurrogate, isLowSurrogate, Bool.or_eq_false_iff, Bool.and_eq_false_iff,
        decide_eq_false_iff_not] at h
      unfold Nat.isValidChar
      omega
    have hchar : (codeChar (hexCode a b c d)).toNat = hexCode a b c d := by
      rw [codeChar, if_neg (by simp [h]), toNat_charOfNat hvalid]
    rw [units, char, hchar, utf16, if_pos hlt]

theorem units_pair {l : Chunk} (h : surrogatePair k l = some c) : k.units ++ l.units = utf16 c.toNat := by
  have hcode : ∀ {k : Chunk} {n : Nat}, k.code? = some n → k.units = [n] := by
    intro k n hk
    cases k with
    | raw | esc => cases hk
    | uni => rw [Chunk.units, Option.some.inj hk]
  unfold surrogatePair at h
  split at h
  next hi lo hhi hlo =>
    split at h
    next hboth =>
      simp only [isHighSurrogate, isLowSurrogate, Bool.and_eq_true, decide_eq_true_eq] at hboth
      obtain rfl := Option.some.inj h
      have hvalid : (0x10000 + (hi - 0xD800) * 0x400 + (lo - 0xDC00)).isValidChar := by
        unfold Nat.isValidChar
        omega
      rw [hcode hhi, hcode hlo, pairChar, toNat_charOfNat hvalid, utf16, if_neg (by omega)]
      have hhigh : 0xD800 + (0x10000 + (hi - 0xD800) * 0x400 + (lo - 0xDC00) - 0x10000) / 0x400 = hi := by omega
      have hlow : 0xDC00 + (0x10000 + (hi - 0xD800) * 0x400 + (lo - 0xDC00) - 0x10000) % 0x400 = lo := by omega
      rw [hhigh, hlow]
      rfl
    · cases h
  · cases h

/-- **A string whose surrogates are paired is the string that is read.** -/
theorem units_eq_of_paired (h : paired s = true) : units s = (unquoteChars s).flatMap fun c => utf16 c.toNat := by
  fun_induction paired s with
  | case1 => rfl
  | case2 k =>
    have hk : k.isSurrogate = false := by simpa using h
    simp [units, unquoteChars, Chunk.units_eq hk]
  | case3 k l s c hpair ih =>
    rw [unquoteChars, hpair, flatMap_cons, ← ih h, ← units_pair hpair]
    simp [units]
  | case4 k l s hpair ih =>
    simp only [Bool.and_eq_true, Bool.not_eq_true'] at h
    rw [unquoteChars, hpair, flatMap_cons, ← ih h.2, ← Chunk.units_eq h.1]
    rfl

theorem paired_of_not_mem (h : '\uFFFD' ∉ unquoteChars s) : paired s = true := by
  have hchunk : ∀ {k : Chunk}, k.char ≠ '\uFFFD' → k.isSurrogate = false := by
    intro k hk
    by_contra hsurrogate
    cases k with
    | raw | esc => exact hsurrogate rfl
    | uni =>
      simp only [Bool.not_eq_false] at hsurrogate
      exact hk (if_pos hsurrogate)
  fun_induction paired s with
  | case1 => rfl
  | case2 =>
    rw [unquoteChars, mem_singleton] at h
    rw [hchunk (.symm h)]
    rfl
  | case3 k l s c hpair ih =>
    rw [unquoteChars, hpair] at h
    exact ih (not_mem_of_not_mem_cons h)
  | case4 k l s hpair ih =>
    rw [unquoteChars, hpair] at h
    rw [hchunk (.symm (ne_of_not_mem_cons h)), ih (not_mem_of_not_mem_cons h)]
    rfl

theorem paired_of_units_eq (h : units s = (unquoteChars s).flatMap fun c => utf16 c.toNat) : paired s = true := by
  have hchunk : ∀ {k : Chunk} {us us' : List Nat}, k.units ++ us = utf16 k.char.toNat ++ us' →
      k.isSurrogate = false := by
    intro k us us' hk
    by_contra hsurrogate
    cases k with
    | raw | esc => exact hsurrogate rfl
    | uni a b c d =>
      simp only [isSurrogate, code?, Option.any_some, Bool.not_eq_false] at hsurrogate
      have hchar : Chunk.char (.uni a b c d) = '\uFFFD' := if_pos hsurrogate
      rw [hchar] at hk
      have hcode : hexCode a b c d = 0xFFFD := (List.cons.inj hk).1
      rw [hcode] at hsurrogate
      exact absurd hsurrogate (by decide)
  fun_induction paired s with
  | case1 => rfl
  | case2 =>
    rw [units, unquoteChars, flatMap_cons, flatMap_cons] at h
    rw [hchunk h]
    rfl
  | case3 k l s c hpair ih =>
    rw [unquoteChars, hpair, flatMap_cons, ← units_pair hpair] at h
    have hunits : units (k :: l :: s) = (k.units ++ l.units) ++ units s := by simp [units]
    rw [hunits] at h
    exact ih (append_cancel_left h)
  | case4 k l s hpair ih =>
    rw [unquoteChars, hpair, flatMap_cons] at h
    have hk := hchunk h
    rw [← Chunk.units_eq hk] at h
    rw [hk, ih (append_cancel_left h)]
    rfl

/-- The text that a string stands for. -/
def Means (s : List Chunk) (text : String) : Prop := units s = text.toList.flatMap fun c => utf16 c.toNat

theorem means_unquote_iff : Means s (unquote s) ↔ paired s = true := by
  rw [Means, unquote, String.toList_ofList]
  exact ⟨paired_of_units_eq, units_eq_of_paired⟩

theorem means_of_unquote {text : String} (h : unquote s = text) (hmem : '\uFFFD' ∉ text.toList) : Means s text := by
  subst h
  rw [unquote, String.toList_ofList] at hmem
  exact means_unquote_iff.mpr (paired_of_not_mem hmem)

theorem Means.units_eq {s' : List Chunk} {text : String} (h : Means s text) (h' : Means s' text) : units s = units s' :=
  .trans h (.symm h')

end Json
