import Mathlib.Tactic.IntervalCases
import RelayHub.Lib.Text

/-! # Instants and their RFC 3339 texts

An instant is an integer: nanoseconds since 1970-01-01T00:00:00Z. `format` is the text of
`time.Time.MarshalJSON` for an instant in UTC and `parse` reads a text back; `parse_format` is the round
trip. `parse false` is the strict reader of `UnmarshalJSON`. `parse true` is `time.Parse` with the layout
`time.RFC3339`, which also takes an hour of one digit, a decimal comma, and zone offsets of 24 hours or
60 minutes. -/

namespace Rfc3339

open List Option

/-! ## Blocks

A position in a row of blocks of given lengths. -/

/-- The block that position `d` falls into, and the position in it. -/
def locate : List Nat → Nat → Nat × Nat
  | [], d => (0, d)
  | l :: ls, d => if d < l then (0, d) else ((locate ls (d - l)).1 + 1, (locate ls (d - l)).2)

theorem locate_spec {ls : List Nat} {d : Nat} (h : d < ls.sum) :
    (locate ls d).1 < ls.length ∧ (locate ls d).2 < ls.getD (locate ls d).1 0 ∧
      (ls.take (locate ls d).1).sum + (locate ls d).2 = d := by
  induction ls generalizing d with
  | nil => simp at h
  | cons l ls ih =>
    by_cases hd : d < l
    · simp [locate, hd]
    obtain ⟨h1, h2, h3⟩ := ih (d := d - l) (by simp at h; omega)
    simp only [locate, if_neg hd, length_cons, take_succ_cons, sum_cons]
    exact ⟨by omega, h2, by omega⟩

/-! ## Dates -/

def isLeap (year : Int) : Bool := year % 4 = 0 && (year % 100 ≠ 0 || year % 400 = 0)

def monthLengths (year : Int) : List Nat :=
  [31, if isLeap year then 29 else 28, 31, 30, 31, 30, 31, 31, 30, 31, 30, 31]

def daysIn (month : Nat) (year : Int) : Nat := (monthLengths year).getD (month - 1) 0

/-- The days from 0001-01-01 to the first of January of a year. -/
def daysBeforeYear (year : Int) : Int :=
  365 * (year - 1) + (year - 1) / 4 - (year - 1) / 100 + (year - 1) / 400

/-- The days from 0001-01-01 to a date. -/
def dayNumber (year : Int) (month day : Nat) : Int :=
  daysBeforeYear year + (((monthLengths year).take (month - 1)).sum : Nat) + day - 1

/-- The year of a day number and the day of that year, counted from zero. A year at the end of its
century or its four years may have one day more, hence the two bounds. -/
def yearDay (n : Int) : Int × Nat :=
  let d := n % 146097
  let n100 := min (d / 36524) 3
  let d := d - 36524 * n100
  let n4 := d / 1461
  let d := d - 1461 * n4
  let n1 := min (d / 365) 3
  (400 * (n / 146097) + 100 * n100 + 4 * n4 + n1 + 1, (d - 365 * n1).toNat)

/-- The cycles of a day number. The last day of a leap year is the only one past 365 days. -/
theorem yearDay_cycles (n : Int) : ∃ q b c e : Int, ∃ r : Nat,
    yearDay n = (400 * q + 100 * b + 4 * c + e + 1, r) ∧ n = 146097 * q + 36524 * b + 1461 * c + 365 * e + r ∧
      0 ≤ b ∧ b ≤ 3 ∧ 0 ≤ c ∧ c ≤ 24 ∧ 0 ≤ e ∧ e ≤ 3 ∧
      (r < 365 ∨ r = 365 ∧ e = 3 ∧ (c < 24 ∨ b = 3)) := by
  refine ⟨n / 146097, _, _, _, _, rfl, ?_⟩
  refine ⟨?_, ?_⟩
  · omega
  · omega

theorem yearDay_spec (n : Int) : daysBeforeYear (yearDay n).1 + (yearDay n).2 = n ∧
      (yearDay n).2 < 365 + (if isLeap (yearDay n).1 then 1 else 0) := by
  obtain ⟨q, b, c, e, r, heq, hn, hb0, hb, hc0, hc, he0, he, hr⟩ := yearDay_cycles n
  rw [heq]
  constructor
  · simp only [daysBeforeYear]
    have h4 : (400 * q + 100 * b + 4 * c + e + 1 - 1) / 4 = 100 * q + 25 * b + c := by omega
    have h100 : (400 * q + 100 * b + 4 * c + e + 1 - 1) / 100 = 4 * q + b := by omega
    have h400 : (400 * q + 100 * b + 4 * c + e + 1 - 1) / 400 = q := by omega
    omega
  · rcases hr with hr | ⟨hr, rfl, hcb⟩
    · show r < _
      omega
    · have hleap : isLeap (400 * q + 100 * b + 4 * c + 3 + 1) = true := by
        simp only [isLeap, Bool.and_eq_true, Bool.or_eq_true, decide_eq_true_eq, ne_eq]
        omega
      simp only [hleap, if_true]
      omega

theorem sum_monthLengths (year : Int) : (monthLengths year).sum = 365 + (if isLeap year then 1 else 0) := by
  unfold monthLengths
  cases isLeap year <;> rfl

/-- The year, month and day of a day number. -/
def date (n : Int) : Int × Nat × Nat :=
  let (year, d) := yearDay n
  let (m, r) := locate (monthLengths year) d
  (year, m + 1, r + 1)

theorem date_spec (n : Int) : ∃ (year : Int) (month day : Nat), date n = (year, month, day) ∧
    dayNumber year month day = n ∧ 1 ≤ month ∧ month ≤ 12 ∧ 1 ≤ day ∧ day ≤ daysIn month year := by
  obtain ⟨hn, hlt⟩ := yearDay_spec n
  rw [← sum_monthLengths] at hlt
  obtain ⟨hm, hr, hsum⟩ := locate_spec hlt
  refine ⟨(yearDay n).1, (locate (monthLengths (yearDay n).1) (yearDay n).2).1 + 1,
    (locate (monthLengths (yearDay n).1) (yearDay n).2).2 + 1, rfl, ?_, by omega, hm, by omega, ?_⟩
  · simp only [dayNumber, Nat.add_sub_cancel]
    omega
  · simp only [daysIn, Nat.add_sub_cancel]
    omega

/-! ## Numbers of fixed width -/

/-- The last `k` decimal digits of `n`. -/
def pad : Nat → Nat → List Char
  | 0, _ => []
  | k + 1, n => pad k (n / 10) ++ [Nat.digitChar (n % 10)]

@[simp] theorem length_pad (k n : Nat) : (pad k n).length = k := by
  induction k generalizing n with
  | zero => rfl
  | succ k ih => simp [pad, ih]

variable {n : Nat}

theorem isDigit_digitChar (h : n < 10) : (Nat.digitChar n).isDigit = true := by
  interval_cases n <;> decide

variable {k : Nat} {c : Char}

theorem isDigit_of_mem_pad (h : c ∈ pad k n) : c.isDigit = true := by
  induction k generalizing n with
  | zero => simp [pad] at h
  | succ k ih =>
    rcases mem_append.mp h with h | h
    · exact ih h
    · rw [mem_singleton.mp h]
      exact isDigit_digitChar (by omega)

theorem ofDigitChars_pad (h : n < 10 ^ k) : Nat.ofDigitChars 10 (pad k n) 0 = n := by
  induction k generalizing n with
  | zero =>
    have : n = 0 := by simpa using h
    simp [pad, this]
  | succ k ih =>
    have hlt : n / 10 < 10 ^ k := by
      omega
    rw [pad, Nat.ofDigitChars_append, ih hlt, Nat.ofDigitChars_cons_digitChar_of_lt_ten (by omega),
      Nat.ofDigitChars_nil]
    omega

/-- Reads `k` digits. -/
def readDigits (k : Nat) (cs : List Char) : Option (Nat × List Char) :=
  if (cs.take k).length = k ∧ (cs.take k).all Char.isDigit = true then
    some (Nat.ofDigitChars 10 (cs.take k) 0, cs.drop k)
  else none

theorem readDigits_pad (h : n < 10 ^ k) (rest : List Char) : readDigits k (pad k n ++ rest) = some (n, rest) := by
  have hall : (pad k n).all Char.isDigit = true := all_eq_true.mpr fun c hc => isDigit_of_mem_pad hc
  simp [readDigits, hall, ofDigitChars_pad h]

/-! ## Fractions of a second -/

/-- `.999999999`: nine digits without the trailing zeros, and nothing for a whole second. -/
def fractionText (nanos : Nat) : List Char :=
  match (pad 9 nanos).rdropWhile (· = '0') with
  | [] => []
  | c :: cs => '.' :: c :: cs

/-- `parseNanoseconds`: digits beyond the ninth are dropped. -/
def nanosOf (ds : List Char) : Nat :=
  Nat.ofDigitChars 10 (ds.take 9 ++ List.replicate (9 - ds.length) '0') 0

/-- Reads an optional fraction. -/
def readFraction (comma : Bool) (cs : List Char) : Nat × List Char :=
  match cs with
  | s :: c :: rest =>
    if (s = '.' || (comma && s = ',')) && c.isDigit then
      (nanosOf ((c :: rest).takeWhile Char.isDigit), (c :: rest).dropWhile Char.isDigit)
    else (0, cs)
  | _ => (0, cs)

theorem rdropWhile_zeros (ds : List Char) :
    ds.rdropWhile (· = '0') ++ List.replicate (ds.length - (ds.rdropWhile (· = '0')).length) '0' = ds := by
  have hsplit := rdropWhile_append_rtakeWhile (p := fun c => decide (c = '0')) (l := ds)
  have hlen := congrArg List.length hsplit
  rw [length_append] at hlen
  have hzeros : ds.rtakeWhile (· = '0') = .replicate (ds.length - (ds.rdropWhile (· = '0')).length) '0' := by
    refine eq_replicate_iff.mpr ⟨by omega, fun c hc => ?_⟩
    simpa using mem_rtakeWhile_imp hc
  rw [← hzeros]
  exact hsplit

variable {nanos : Nat}

theorem nanosOf_rdropWhile (h : nanos < 10 ^ 9) : nanosOf ((pad 9 nanos).rdropWhile (· = '0')) = nanos := by
  have hz := rdropWhile_zeros (pad 9 nanos)
  have hlen := congrArg List.length hz
  rw [length_append, length_pad] at hlen
  rw [length_pad] at hz
  rw [nanosOf, take_of_length_le (by omega), hz, ofDigitChars_pad h]

theorem readFraction_fractionText (comma : Bool) (h : nanos < 10 ^ 9) {rest : List Char}
    (hr : ∀ c ∈ rest.head?, c.isDigit = false ∧ c ≠ '.' ∧ c ≠ ',') :
    readFraction comma (fractionText nanos ++ rest) = (nanos, rest) := by
  have hnanos := nanosOf_rdropWhile h
  have hdigit : ∀ c ∈ (pad 9 nanos).rdropWhile (· = '0'), c.isDigit = true := fun c hc =>
    isDigit_of_mem_pad ((List.rdropWhile_prefix _ _).mem hc)
  unfold fractionText
  cases hd : (pad 9 nanos).rdropWhile (· = '0') with
  | nil =>
    have hzero : nanos = 0 := by
      rw [hd] at hnanos
      exact hnanos.symm.trans (by decide)
    subst hzero
    cases rest with
    | nil => rfl
    | cons s rest =>
      obtain ⟨-, hdot, hcomma⟩ := hr s rfl
      cases rest with
      | nil => rfl
      | cons => simp [readFraction, hdot, hcomma]
  | cons c cs =>
    rw [hd] at hnanos hdigit
    have hstop : ∀ x ∈ rest.head?, x.isDigit = false := fun x hx => (hr x hx).1
    have htake : (c :: (cs ++ rest)).takeWhile Char.isDigit = c :: cs := Text.takeWhile_run hdigit hstop
    have hdrop : (c :: (cs ++ rest)).dropWhile Char.isDigit = rest := Text.dropWhile_run hdigit hstop
    simp only [cons_append, readFraction, htake, hdrop, hnanos, hdigit c mem_cons_self]
    simp

/-! ## Instants -/

/-- The day number of an instant; 719162 days lie between 0001-01-01 and 1970-01-01. -/
def dayOf (t : Int) : Int := t / 1000000000 / 86400 + 719162

def secondOfDay (t : Int) : Nat := (t / 1000000000 % 86400).toNat

def nanosecond (t : Int) : Nat := (t % 1000000000).toNat

def dateText (year month day : Nat) : List Char :=
  pad 4 year ++ '-' :: (pad 2 month ++ '-' :: pad 2 day)

def clockText (s nanos : Nat) : List Char :=
  pad 2 (s / 3600) ++ ':' :: (pad 2 (s / 60 % 60) ++ ':' :: (pad 2 (s % 60) ++ fractionText nanos))

/-- The text of an instant. `MarshalJSON` refuses a year outside `0 … 9999`. -/
def format (t : Int) : Option (List Char) :=
  let (year, month, day) := date (dayOf t)
  if 0 ≤ year ∧ year ≤ 9999 then
    some (dateText year.toNat month day ++ 'T' :: (clockText (secondOfDay t) (nanosecond t) ++ ['Z']))
  else none

def expect (c : Char) : List Char → Option (List Char)
  | [] => none
  | d :: cs => if d = c then some cs else none

variable (lenient : Bool)

/-- Two digits, or one if `lenient`. -/
def readHour (cs : List Char) : Option (Nat × List Char) :=
  match readDigits 2 cs with
  | some r => some r
  | none => if lenient then readDigits 1 cs else none

/-- The offset of a zone in seconds. -/
def readZone : List Char → Option Int
  | ['Z'] => some 0
  | [sign, a, b, ':', c, d] => do
    let (h, _) ← readDigits 2 [a, b]
    let (m, _) ← readDigits 2 [c, d]
    if (h < 24 ∨ lenient = true ∧ h = 24) ∧ (m < 60 ∨ lenient = true ∧ m = 60) then
      if sign = '+' then some ((h * 60 + m) * 60)
      else if sign = '-' then some (-((h * 60 + m) * 60))
      else none
    else none
  | _ => none

/-- Reads `2006-01-02`. -/
def readDate (cs : List Char) : Option ((Nat × Nat × Nat) × List Char) := do
  let (year, cs) ← readDigits 4 cs
  let cs ← expect '-' cs
  let (month, cs) ← readDigits 2 cs
  let cs ← expect '-' cs
  let (day, cs) ← readDigits 2 cs
  some ((year, month, day), cs)

/-- Reads `15:04:05` and a fraction. -/
def readClock (cs : List Char) : Option ((Nat × Nat × Nat × Nat) × List Char) := do
  let (hour, cs) ← readHour lenient cs
  let cs ← expect ':' cs
  let (minute, cs) ← readDigits 2 cs
  let cs ← expect ':' cs
  let (sec, cs) ← readDigits 2 cs
  some ((hour, minute, sec, (readFraction lenient cs).1), (readFraction lenient cs).2)

def parse (cs : List Char) : Option Int := do
  let ((year, month, day), cs) ← readDate cs
  let cs ← expect 'T' cs
  let ((hour, minute, sec, nanos), cs) ← readClock lenient cs
  let offset ← readZone lenient cs
  if 1 ≤ month ∧ month ≤ 12 ∧ 1 ≤ day ∧ day ≤ daysIn month year ∧ hour < 24 ∧ minute < 60 ∧ sec < 60 then
    some (((dayNumber year month day - 719162) * 86400 + hour * 3600 + minute * 60 + sec - offset) *
      1000000000 + nanos)
  else none

@[simp] theorem expect_cons (c : Char) (cs : List Char) : expect c (c :: cs) = some cs := if_pos rfl

theorem daysIn_le (month : Nat) (year : Int) : daysIn month year ≤ 31 := by
  have hall : ∀ l ∈ monthLengths year, l ≤ 31 := by
    unfold monthLengths
    cases isLeap year <;> decide
  rw [daysIn, getD_eq_getElem?_getD]
  cases hl : (monthLengths year)[month - 1]? with
  | none => exact Nat.zero_le 31
  | some l => exact hall l (mem_of_getElem? hl)

theorem readHour_pad (h : n < 100) (rest : List Char) : readHour lenient (pad 2 n ++ rest) = some (n, rest) := by
  simp [readHour, readDigits_pad (k := 2) h rest]

theorem readDate_dateText {year month day : Nat} (hy : year < 10000) (hm : month < 100) (hd : day < 100)
    (rest : List Char) :
    readDate (dateText year month day ++ rest) = some ((year, month, day), rest) := by
  unfold readDate dateText
  rw [append_assoc, readDigits_pad hy]
  simp only [bind_eq_bind, bind_some, cons_append, expect_cons, append_assoc]
  rw [readDigits_pad hm]
  simp only [bind_some, expect_cons]
  rw [readDigits_pad hd]
  rfl

theorem readClock_clockText {s : Nat} (hs : s < 86400) (hn : nanos < 10 ^ 9) :
    readClock lenient (clockText s nanos ++ ['Z']) = some ((s / 3600, s / 60 % 60, s % 60, nanos), ['Z']) := by
  have hfrac : readFraction lenient (fractionText nanos ++ ['Z']) = (nanos, ['Z']) :=
    readFraction_fractionText lenient hn (by simp)
  unfold readClock clockText
  rw [append_assoc, readHour_pad lenient (by omega)]
  simp only [bind_eq_bind, bind_some, cons_append, expect_cons, append_assoc]
  rw [readDigits_pad (show s / 60 % 60 < 100 by omega)]
  simp only [bind_some, expect_cons]
  rw [readDigits_pad (show s % 60 < 100 by omega)]
  simp only [bind_some, hfrac]

theorem isDigit_of_mem_fractionText (h : c ∈ fractionText nanos) : c.isDigit = true ∨ c = '.' := by
  have hdigit : ∀ c ∈ (pad 9 nanos).rdropWhile (· = '0'), c.isDigit = true := fun c hc =>
    isDigit_of_mem_pad ((List.rdropWhile_prefix _ _).mem hc)
  unfold fractionText at h
  split at h
  · simp at h
  next heq =>
  rw [heq] at hdigit
  rcases mem_cons.mp h with rfl | h
  · exact .inr rfl
  · exact .inl (hdigit c h)

theorem mem_format {t : Int} {cs : List Char} (h : format t = some cs) (hc : c ∈ cs) :
    c.isDigit = true ∨ c ∈ ['-', 'T', ':', '.', 'Z'] := by
  simp only [format, ite_none_right_eq_some, Option.some.injEq] at h
  obtain ⟨-, rfl⟩ := h
  simp only [dateText, clockText, mem_append, mem_cons, not_mem_nil, or_false] at hc ⊢
  rcases hc with (hc | hc | hc | hc | hc) | hc | (hc | hc | hc | hc | hc | hc) | hc
  all_goals first
    | exact .inl (isDigit_of_mem_pad hc)
    | (rcases isDigit_of_mem_fractionText hc with hc | hc <;> simp [hc])
    | simp [hc]

/-- An instant that has a text is read back from it, by either reader. -/
theorem parse_format {t : Int} {cs : List Char} (h : format t = some cs) : parse lenient cs = some t := by
  obtain ⟨year, month, day, hdate, hday, hm1, hm2, hd1, hd2⟩ := date_spec (dayOf t)
  have hsec : secondOfDay t < 86400 := by
    unfold secondOfDay
    omega
  have hnano : nanosecond t < 10 ^ 9 := by
    unfold nanosecond
    omega
  have hdays := daysIn_le month year
  simp only [format, hdate, ite_none_right_eq_some, Option.some.injEq] at h
  obtain ⟨hyear, rfl⟩ := h
  have hy : ((year.toNat : Nat) : Int) = year := by omega
  unfold parse
  rw [readDate_dateText (by omega) (by omega) (by omega)]
  simp only [bind_eq_bind, bind_some, expect_cons]
  rw [readClock_clockText lenient hsec hnano]
  simp only [bind_some, readZone, hy]
  rw [if_pos ⟨hm1, hm2, hd1, hd2, by omega, by omega, by omega⟩]
  -- the parts of the clock add up to the second of the day
  have hclock : dayOf t - 719162 = t / 1000000000 / 86400 := by
    unfold dayOf
    omega
  rw [Option.some.injEq]
  unfold secondOfDay nanosecond
  omega

end Rfc3339
