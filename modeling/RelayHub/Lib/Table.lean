import Mathlib.Algebra.Order.Ring.Int
import Mathlib.Data.List.MinMax
import Mathlib.Data.List.Nodup

/-! # Tables as lists of rows

A relational table is a list of rows. The three writing statements are `updateWhere`
(`UPDATE … SET f WHERE p`), `List.filter` (`DELETE`) and append (`INSERT`); `insertIgnore` is an
insert that leaves the table alone when a stored row has the new row's key (`ON CONFLICT DO
NOTHING`). A unique constraint is `(rows.map key).Nodup`.

Everything is generic in the row type; the lemmas say how membership, keys and counts move under
each statement. -/

namespace Table

open List

variable {α κ : Type*} {p q : α → Bool} {f : α → α} {rows rows' : List α} {r a : α} {R : α → α → Prop} {key : α → κ}

/-! ## Update -/

/-- `UPDATE rows SET f WHERE p`. -/
def updateWhere (p : α → Bool) (f : α → α) (rows : List α) : List α :=
  rows.map fun r => if p r then f r else r

theorem mem_updateWhere {r' : α} : r' ∈ updateWhere p f rows ↔ ∃ r ∈ rows, (if p r then f r else r) = r' := by
  simp [updateWhere]

theorem mem_updateWhere_of_mem (f : α → α) (h : r ∈ rows) : (if p r then f r else r) ∈ updateWhere p f rows :=
  mem_updateWhere.mpr ⟨r, h, rfl⟩

theorem mem_updateWhere_cases (h : r ∈ updateWhere p f rows) :
    (∃ a ∈ rows, p a = true ∧ f a = r) ∨ r ∈ rows ∧ ¬ p r = true := by
  obtain ⟨a, ha, rfl⟩ := mem_updateWhere.mp h
  by_cases hp : p a = true
  · rw [if_pos hp]
    exact .inl ⟨a, ha, hp, rfl⟩
  · rw [if_neg hp]
    exact .inr ⟨ha, hp⟩

/-- An update row by row: what it does to the rows it hits is enough. -/
theorem forall₂_updateWhere_hit (hsame : ∀ r, R r r) (hf : ∀ r ∈ rows, p r = true → R r (f r)) :
    List.Forall₂ R rows (updateWhere p f rows) := by
  rw [updateWhere, forall₂_map_right_iff, forall₂_same]
  intro r hr
  split
  next hp => exact hf r hr hp
  · exact hsame r

theorem forall₂_updateWhere (hsame : ∀ r, R r r) (hf : ∀ r, R r (f r)) : List.Forall₂ R rows (updateWhere p f rows) :=
  forall₂_updateWhere_hit hsame fun r _ _ => hf r

theorem updateWhere_congr {g : α → α} (hp : ∀ r ∈ rows, p r = q r) (hf : ∀ r ∈ rows, p r = true → f r = g r) :
    updateWhere p f rows = updateWhere q g rows := by
  refine map_congr_left fun r hr => ?_
  rw [← hp r hr]
  split
  next h => exact hf r hr h
  · rfl

theorem updateWhere_eq_self (h : ∀ r ∈ rows, p r = false) : updateWhere p f rows = rows := by
  refine (map_congr_left fun r hr => ?_).trans (map_id rows)
  rw [h r hr]
  rfl

theorem filter_updateWhere (hf : ∀ r, q (f r) = q r) :
    (updateWhere p f rows).filter q = updateWhere p f (rows.filter q) := by
  rw [updateWhere, filter_map]
  congr 1
  refine filter_congr fun r _ => ?_
  show q (if p r then f r else r) = q r
  split
  · exact hf r
  · rfl

/-- Two updates of distinct rows, by a key that `f` keeps, are one update. -/
theorem updateWhere_updateWhere_key [DecidableEq κ] (key : α → κ) (hf : ∀ r, key (f r) = key r) {k : κ}
    {ks : List κ} (hk : k ∉ ks) (rows : List α) :
    updateWhere (fun r => ks.contains (key r)) f (updateWhere (fun r => key r = k) f rows)
      = updateWhere (fun r => (k :: ks).contains (key r)) f rows := by
  rw [updateWhere, updateWhere, map_map]
  refine map_congr_left fun r _ => ?_
  by_cases h : key r = k
  · simp [h, hf, hk]
  · simp [h]

section

variable (h : List.Forall₂ R rows rows')

include h

theorem map_eq_of_forall₂ (key : α → κ) (hkey : ∀ r r', R r r' → key r' = key r) : rows'.map key = rows.map key := by
  induction h with
  | nil => rfl
  | cons hrow _ ih => rw [map_cons, map_cons, hkey _ _ hrow, ih]

theorem exists_of_forall₂_right {r' : α} (hr' : r' ∈ rows') : ∃ r ∈ rows, R r r' := by
  induction h with
  | nil => cases hr'
  | cons hrow _ ih =>
    rcases mem_cons.mp hr' with rfl | hr'
    · exact ⟨_, mem_cons_self, hrow⟩
    · obtain ⟨r, hr, hR⟩ := ih hr'
      exact ⟨r, mem_cons_of_mem _ hr, hR⟩

theorem exists_of_forall₂_left (hr : r ∈ rows) : ∃ r' ∈ rows', R r r' := by
  obtain ⟨r', hr', hR⟩ := exists_of_forall₂_right h.flip hr
  exact ⟨r', hr', hR⟩

end

theorem forall₂_trans (hR : ∀ a b c, R a b → R b c → R a c) {rows₁ rows₂ : List α} (h : List.Forall₂ R rows rows₁)
    (h' : List.Forall₂ R rows₁ rows₂) : List.Forall₂ R rows rows₂ := by
  induction h generalizing rows₂ with
  | nil => exact h'
  | cons hrow _ ih =>
    cases h' with
    | cons hrow' hrest => exact .cons (hR _ _ _ hrow hrow') (ih hrest)

theorem map_updateWhere (key : α → κ) (hf : ∀ r ∈ rows, p r = true → key (f r) = key r) :
    (updateWhere p f rows).map key = rows.map key := by
  rw [updateWhere, map_map]
  apply map_congr_left
  intro r hr
  by_cases hp : p r = true
  · simp [hp, hf r hr hp]
  · simp [hp]

/-- An update of the row of one key, seen as a map from keys to rows. -/
theorem find?_updateWhere_key [DecidableEq κ] {p : κ → α → Bool} {k : κ} {row : α}
    (hkeeps : ∀ k' r, p k r = true → p k' (f r) = p k' r)
    (hone : ∀ k' r, p k r = true → p k' r = true → k' = k) (hrow : rows.find? (p k) = some row) :
    (fun k' => (updateWhere (p k) f rows).find? (p k')) =
      Function.update (fun k' => rows.find? (p k')) k (some (f row)) := by
  funext k'
  have hsame : p k' ∘ (fun r => if p k r then f r else r) = p k' := by
    funext r
    rw [Function.comp_apply]
    split
    next h => exact hkeeps k' r h
    next => rfl
  rw [updateWhere, find?_map, hsame]
  by_cases hk : k' = k
  · rw [hk, Function.update_self, hrow, Option.map_some, if_pos (find?_some hrow)]
  · rw [Function.update_of_ne hk]
    cases hq : rows.find? (p k') with
    | none => rfl
    | some r =>
      have hp : ¬ p k r = true := fun hp => hk (hone k' r hp (find?_some hq))
      rw [Option.map_some, if_neg hp]

/-- What is counted after an update, read off the rows before it. -/
theorem countP_updateWhere (q p : α → Bool) (f : α → α) (rows : List α) :
    (updateWhere p f rows).countP q = rows.countP (fun r => q (if p r then f r else r)) := by
  rw [updateWhere, countP_map]
  rfl

/-- An update that lets no new row count does not raise the count. -/
theorem countP_updateWhere_le (h : ∀ r ∈ rows, p r = true → q (f r) = true → q r = true) :
    (updateWhere p f rows).countP q ≤ rows.countP q := by
  rw [countP_updateWhere]
  refine countP_mono_left fun r hr hq => ?_
  by_cases hp : p r = true
  · rw [if_pos hp] at hq
    exact h r hr hp hq
  · rwa [if_neg hp] at hq

theorem countP_updateWhere_eq (h : ∀ r ∈ rows, p r = true → q (f r) = q r) :
    (updateWhere p f rows).countP q = rows.countP q := by
  rw [countP_updateWhere]
  refine countP_congr fun r hr => ?_
  by_cases hp : p r = true
  · rw [if_pos hp, h r hr hp]
  · rw [if_neg hp]

/-- A filter that drops `r` takes it out of the count. -/
theorem countP_filter_add_le (hr : r ∈ rows) (hp : p r = false) :
    (rows.filter p).countP q + (if q r then 1 else 0) ≤ rows.countP q := by
  rw [countP_eq_countP_filter_add rows q p]
  refine Nat.add_le_add_left ?_ _
  split
  next hq =>
    refine countP_pos_iff.mpr ⟨r, mem_filter.mpr ⟨hr, ?_⟩, hq⟩
    simp [hp]
  · exact Nat.zero_le _

/-! ## Unique keys -/

theorem eq_of_key_eq (hnd : (rows.map key).Nodup) {b : α} (ha : a ∈ rows) (hb : b ∈ rows) (hk : key a = key b) :
    a = b :=
  inj_on_of_nodup_map hnd ha hb hk

/-- What every row has after an `INSERT`. -/
theorem forall_mem_concat {P : α → Prop} (h : ∀ x ∈ rows, P x) (hr : P r) : ∀ x ∈ rows ++ [r], P x :=
  forall_mem_append.mpr ⟨h, forall_mem_singleton.mpr hr⟩

/-- An `INSERT` of a new key. -/
theorem nodup_keys_concat (hnd : (rows.map key).Nodup) (hnew : ∀ x ∈ rows, key x ≠ key r) :
    ((rows ++ [r]).map key).Nodup := by
  rw [map_append, nodup_append]
  refine ⟨hnd, nodup_singleton _, fun a ha b hb => ?_⟩
  obtain ⟨x, hx, rfl⟩ := mem_map.mp ha
  rw [map_singleton, mem_singleton] at hb
  exact hb ▸ hnew x hx

theorem find?_eq_some_of_only (ha : a ∈ rows) (hp : p a = true) (honly : ∀ b ∈ rows, p b = true → b = a) :
    rows.find? p = some a := by
  cases h : rows.find? p with
  | none => exact absurd hp (find?_eq_none.mp h a ha)
  | some b => rw [honly b (mem_of_find?_eq_some h) (find?_some h)]

theorem find?_key_eq_some [DecidableEq κ] (hnd : (rows.map key).Nodup) (ha : a ∈ rows) :
    rows.find? (fun r => key r = key a) = some a :=
  find?_eq_some_of_only ha (decide_eq_true rfl) fun _ hb hk => eq_of_key_eq hnd hb ha (of_decide_eq_true hk)

/-- Under a unique constraint, an update by key that lets its row count raises the count by one. -/
theorem countP_updateWhere_key [DecidableEq κ] (hnd : (rows.map key).Nodup) (ha : a ∈ rows) (hbefore : q a = false)
    (hafter : q (f a) = true) : (updateWhere (fun r => key r = key a) f rows).countP q = rows.countP q + 1 := by
  induction rows with
  | nil => cases ha
  | cons r rows ih =>
    rw [map_cons, nodup_cons] at hnd
    have hcons : updateWhere (fun r => key r = key a) f (r :: rows)
        = (if key r = key a then f r else r) :: updateWhere (fun r => key r = key a) f rows := by
      simp [updateWhere]
    rw [hcons, countP_cons, countP_cons]
    rcases mem_cons.mp ha with rfl | ha
    · -- no other row has the key
      have hrest : (updateWhere (fun r => key r = key a) f rows).countP q = rows.countP q := by
        refine countP_updateWhere_eq fun b hb hk => ?_
        exact absurd (of_decide_eq_true hk ▸ mem_map_of_mem hb) hnd.1
      simp [hrest, hbefore, hafter]
    · have hne : key r ≠ key a := fun heq => hnd.1 (heq ▸ mem_map_of_mem ha)
      rw [if_neg hne, ih hnd.2 ha]
      omega

/-- Under a unique constraint, selecting by a stored row's key finds that row. -/
theorem filter_key_eq_singleton [DecidableEq κ] (hnd : (rows.map key).Nodup) (ha : a ∈ rows) :
    rows.filter (fun r => key r = key a) = [a] := by
  refine perm_singleton.mp ((perm_ext_iff_of_nodup (hnd.of_map.filter _) (nodup_singleton a)).mpr fun b => ?_)
  rw [mem_filter, mem_singleton, decide_eq_true_eq]
  exact ⟨fun hb => eq_of_key_eq hnd hb.1 ha hb.2, by rintro rfl; exact ⟨ha, rfl⟩⟩

/-! ## Insert -/

/-- `INSERT … ON CONFLICT(key) DO NOTHING` of one row. -/
def insertIgnore [DecidableEq κ] (key : α → κ) (rows : List α) (row : α) : List α :=
  if rows.any (fun r => key r = key row) then rows else rows ++ [row]

/-- `INSERT … SELECT … ON CONFLICT(key) DO NOTHING`. -/
def insertAllIgnore [DecidableEq κ] (key : α → κ) (rows new : List α) : List α :=
  new.foldl (insertIgnore key) rows

section Insert

variable [DecidableEq κ] {key : α → κ} {rows new : List α} {row r : α}

theorem mem_insertIgnore_of_mem (h : r ∈ rows) : r ∈ insertIgnore key rows row := by
  rw [insertIgnore]
  split
  · exact h
  · exact mem_append_left _ h

theorem mem_or_eq_of_mem_insertIgnore (h : r ∈ insertIgnore key rows row) : r ∈ rows ∨ r = row := by
  rw [insertIgnore] at h
  split at h
  · exact .inl h
  · rcases mem_append.mp h with h | h
    · exact .inl h
    · exact .inr (mem_singleton.mp h)

theorem mem_insertAllIgnore_of_mem (h : r ∈ rows) : r ∈ insertAllIgnore key rows new := by
  induction new generalizing rows with
  | nil => exact h
  | cons a new ih => exact ih (mem_insertIgnore_of_mem h)

theorem sublist_insertAllIgnore (key : α → κ) (rows new : List α) :
    List.Sublist rows (insertAllIgnore key rows new) := by
  induction new generalizing rows with
  | nil => exact .refl rows
  | cons row new ih =>
    have hone : List.Sublist rows (insertIgnore key rows row) := by
      unfold insertIgnore
      split
      · exact .refl rows
      · exact sublist_append_left rows [row]
    exact hone.trans (ih (insertIgnore key rows row))

theorem mem_or_mem_of_mem_insertAllIgnore (h : r ∈ insertAllIgnore key rows new) : r ∈ rows ∨ r ∈ new := by
  induction new generalizing rows with
  | nil => exact .inl h
  | cons a new ih =>
    rcases ih h with h | h
    · rcases mem_or_eq_of_mem_insertIgnore h with h | rfl
      · exact .inl h
      · exact .inr mem_cons_self
    · exact .inr (mem_cons_of_mem _ h)

theorem exists_key_insertIgnore (rows : List α) (row : α) : ∃ r ∈ insertIgnore key rows row, key r = key row := by
  rw [insertIgnore]
  split
  next hany =>
    obtain ⟨r, hr, hk⟩ := any_eq_true.mp hany
    exact ⟨r, hr, of_decide_eq_true hk⟩
  · exact ⟨row, mem_append_right _ mem_cons_self, rfl⟩

theorem insertIgnore_of_fresh (h : ∀ r ∈ rows, key r ≠ key row) : insertIgnore key rows row = rows ++ [row] := by
  rw [insertIgnore]
  simpa [any_eq_true] using h

/-- **A conflict-free bulk insert appends.** The new keys are pairwise different and none of them is
stored. -/
theorem insertAllIgnore_of_fresh (hnd : (new.map key).Nodup) (hfresh : ∀ n ∈ new, ∀ r ∈ rows, key r ≠ key n) :
    insertAllIgnore key rows new = rows ++ new := by
  induction new generalizing rows with
  | nil => simp [insertAllIgnore]
  | cons a new ih =>
    rw [map_cons, nodup_cons] at hnd
    have hstep : insertAllIgnore key rows (a :: new) = insertAllIgnore key (rows ++ [a]) new := by
      rw [← insertIgnore_of_fresh (hfresh a mem_cons_self)]
      rfl
    rw [hstep, ih hnd.2]
    · simp
    intro n hn
    exact forall_mem_concat (hfresh n (mem_cons_of_mem _ hn)) fun hk => hnd.1 (hk ▸ mem_map_of_mem hn)

/-- A bulk insert of different keys stores every row whose key is not stored yet. -/
theorem mem_insertAllIgnore_of_fresh {n : α} (hnd : (new.map key).Nodup) (hn : n ∈ new)
    (hfresh : ∀ r ∈ rows, key r ≠ key n) : n ∈ insertAllIgnore key rows new := by
  induction new generalizing rows with
  | nil => cases hn
  | cons a new ih =>
    rw [map_cons, nodup_cons] at hnd
    show n ∈ insertAllIgnore key (insertIgnore key rows a) new
    rcases mem_cons.mp hn with rfl | hrest
    · apply mem_insertAllIgnore_of_mem
      rw [insertIgnore_of_fresh hfresh]
      exact mem_append_right _ mem_cons_self
    · refine ih hnd.2 hrest fun r hr => ?_
      rcases mem_or_eq_of_mem_insertIgnore hr with hr | rfl
      · exact hfresh r hr
      · exact fun hk => hnd.1 (hk ▸ mem_map_of_mem hrest)

theorem filter_insertIgnore (hp : ∀ a b, key a = key b → p a = p b) (rows : List α)
    (row : α) : (insertIgnore key rows row).filter p
      = if p row then insertIgnore key (rows.filter p) row else rows.filter p := by
  by_cases hrow : p row = true
  · -- a row in conflict has the same key, so it meets the condition too
    have hany : (rows.filter p).any (fun r => key r = key row) = rows.any (fun r => key r = key row) := by
      rw [any_filter]
      congr 1
      funext r
      by_cases hk : key r = key row
      · simp [hp r row hk, hrow]
      · simp [hk]
    rw [insertIgnore, insertIgnore, hany]
    split
    · rfl
    · simp [hrow]
  · rw [insertIgnore]
    split
    · rfl
    · simp [hrow]

/-- **A bulk insert, seen through a condition on the key.** -/
theorem filter_insertAllIgnore (hp : ∀ a b, key a = key b → p a = p b)
    (rows new : List α) : (insertAllIgnore key rows new).filter p
      = insertAllIgnore key (rows.filter p) (new.filter p) := by
  induction new generalizing rows with
  | nil => rfl
  | cons row new ih =>
    have hstep : insertAllIgnore key rows (row :: new) = insertAllIgnore key (insertIgnore key rows row) new := rfl
    rw [hstep, ih, filter_insertIgnore hp]
    by_cases hrow : p row = true
    · rw [if_pos hrow, filter_cons_of_pos hrow]
      rfl
    · rw [if_neg hrow, filter_cons_of_neg hrow]

end Insert

/-! ## What a transaction inserted -/

/-- The rows with a key that was not stored before. -/
def inserted [DecidableEq κ] (key : α → κ) (rows rows' : List α) : List α :=
  rows'.filter fun r => !rows.any fun a => key a = key r

theorem inserted_append_length_le [DecidableEq κ] (key : α → κ) (rows new : List α) :
    (inserted key rows (rows ++ new)).length ≤ new.length := by
  have hold : rows.filter (fun r => !rows.any fun a => key a = key r) = [] := by
    rw [filter_eq_nil_iff]
    intro r hr hfresh
    rw [Bool.not_eq_true', any_eq_false] at hfresh
    exact hfresh r hr (decide_eq_true rfl)
  rw [inserted, filter_append, hold, nil_append]
  exact length_filter_le _ _

/-! ## The largest of some values -/

/-- The largest value of a column, and 0 if there is none. -/
def largest (xs : List Int) : Int := xs.foldr max 0

theorem largest_nonneg (xs : List Int) : 0 ≤ largest xs := by
  induction xs with
  | nil => exact le_refl 0
  | cons x xs ih => exact ih.trans (le_max_right x (largest xs))

theorem le_largest {xs : List Int} {x : Int} (h : x ∈ xs) : x ≤ largest xs :=
  le_max_of_le' 0 h le_rfl

theorem largest_append_right (xs ys : List Int) : largest xs ≤ largest (xs ++ ys) := by
  induction xs with
  | nil => exact largest_nonneg ys
  | cons x xs ih => exact max_le_max (le_refl x) ih

/-! ## The first rows of an order -/

/-- In a sorted list, what may not stand behind `x` stands before it; so it does in every prefix that
reaches `x` (`ORDER BY … LIMIT n`). -/
theorem pair_sublist_take {r : α → α → Prop} {l : List α} {x y : α} (hs : l.Pairwise r) {n : Nat}
    (hx : x ∈ l.take n) (hy : y ∈ l) (hne : y ≠ x) (hr : ¬ r x y) :
    List.Sublist [y, x] (l.take n) := by
  obtain ⟨as, bs, hsplit⟩ := append_of_mem hx
  have hl : l = as ++ x :: (bs ++ l.drop n) := by
    rw [← cons_append, ← append_assoc, ← hsplit, take_append_drop]
  -- what follows `x`, in the prefix or after it, is behind `x` in the order
  have hyas : y ∈ as := by
    rw [hl] at hs hy
    rcases mem_append.mp hy with hy | hy
    · exact hy
    · rcases mem_cons.mp hy with hy | hy
      · exact absurd hy hne
      · exact absurd ((pairwise_cons.mp (pairwise_append.mp hs).2.1).1 y hy) hr
  rw [hsplit]
  exact .append (singleton_sublist.mpr hyas) (singleton_sublist.mpr mem_cons_self)

end Table
