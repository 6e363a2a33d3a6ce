import Mathlib.Data.List.Nodup

/-! # Dictionaries

A store of values under keys as a list of entries, the newest first; a key has at most one entry. -/

namespace Dict

open List

variable {α : Type*} {key other : String} {value : α} {d : List (String × α)}

def erase (key : String) (d : List (String × α)) : List (String × α) := d.filter fun e => e.1 ≠ key

def set (key : String) (value : α) (d : List (String × α)) : List (String × α) := (key, value) :: erase key d

@[simp] theorem lookup_erase_self : (erase key d).lookup key = none := by
  rw [lookup_eq_none_iff]
  intro e he
  have hne := (mem_filter.mp he).2
  simp only [decide_eq_true_eq] at hne
  exact bne_iff_ne.mpr (.symm hne)

theorem lookup_erase_ne (hne : other ≠ key) : (erase key d).lookup other = d.lookup other := by
  unfold erase
  induction d with
  | nil => rfl
  | cons e d ih =>
    obtain ⟨k, v⟩ := e
    by_cases hk : k = key
    · subst hk
      rw [filter_cons_of_neg (by simp), ih, lookup_cons, beq_eq_false_iff_ne.mpr hne]
    · rw [filter_cons_of_pos (by simpa using hk), lookup_cons, lookup_cons, ih]

/-- What is there after a key has been erased was there before. -/
theorem lookup_of_lookup_erase (h : (erase key d).lookup other = some value) : d.lookup other = some value := by
  by_cases hne : other = key
  · subst hne
    rw [lookup_erase_self] at h
    cases h
  · rwa [lookup_erase_ne hne] at h

@[simp] theorem lookup_set_self : (set key value d).lookup key = some value := by simp [set]

theorem lookup_set_ne (hne : other ≠ key) : (set key value d).lookup other = d.lookup other := by
  rw [set, lookup_cons, beq_eq_false_iff_ne.mpr hne]
  exact lookup_erase_ne hne

theorem mem_keys_of_lookup (h : d.lookup key = some value) : key ∈ d.map Prod.fst := by
  obtain ⟨before, after, rfl, -⟩ := lookup_eq_some_iff.mp h
  simp

end Dict
