import RelayHub.Apps.Runs

/-! # RelayHub applications — updates are atomic patches

`Update` writes all three editable fields, those that it does not name as it has read them. It does so only if the
row still has the fields that were read, so what it writes is a patch of the row as it is then. -/

namespace RelayHub.Apps

open List Transactions

/-- The applications after the first turns of a run. -/
def rowsAt (E : Env) (patience : Nat) (data : Tables) (ts : List AppTurn) (i : Nat) : String → Option App :=
  rows (dataAt E patience data ts i)

/-- **Every call that changes applications is atomic**, and an update is a patch. -/
structure AtomicPatches (E : Env) (patience : Nat) (data : Tables) (ts : List AppTurn) : Prop where
  /-- A turn changes nothing, or it performs the call whose turn it is, on the applications as they are then. -/
  turns : ∀ i t, ts[i]? = some t → rowsAt E patience data ts (i + 1) = rowsAt E patience data ts i ∨
    ∃ n c call result, t = .step n c ∧ (ts.filterMap Turn.started)[n]? = some call ∧
      call.Applies (rowsAt E patience data ts i) (rowsAt E patience data ts (i + 1)) result
  /-- An update that has succeeded was performed in one turn, and returned the row; no other turn of it changed
  anything. -/
  once : ∀ (n : Nat) appId input app,
    (appsAfter E patience data ts).calls[n]? = some (.update appId input, .done (.ok (.updated app))) →
    ∃ i c, ts[i]? = some (.step n c) ∧ (Call.update appId input).Applies (rowsAt E patience data ts i)
        (rowsAt E patience data ts (i + 1)) (some app) ∧
      ∀ j c', ts[j]? = some (.step n c') → j ≠ i → rowsAt E patience data ts (j + 1) = rowsAt E patience data ts j
  /-- No call changes anything twice. -/
  atMostOnce : ∀ i j n c c', ts[i]? = some (.step n c) → ts[j]? = some (.step n c') →
    rowsAt E patience data ts (i + 1) ≠ rowsAt E patience data ts i →
    rowsAt E patience data ts (j + 1) ≠ rowsAt E patience data ts j → i = j
  /-- Every application is valid. -/
  valid : ∀ i id row, rowsAt E patience data ts i id = some row → row.validates E
  /-- An application stays, it is not enabled again, and the time of its last change does not decrease. -/
  monotone : ∀ i j id row, i ≤ j → rowsAt E patience data ts i id = some row →
    ∃ row', rowsAt E patience data ts j id = some row' ∧ row.updatedAt ≤ row'.updatedAt ∧
      (row.enabled = false → row'.enabled = false)

/-- A row is not enabled again, and the time of its last change does not decrease. -/
def App.Precedes (row row' : App) : Prop :=
  row.updatedAt ≤ row'.updatedAt ∧ (row.enabled = false → row'.enabled = false)

theorem App.Precedes.refl (row : App) : row.Precedes row := ⟨le_rfl, fun h => h⟩

theorem Call.Applies.monotone {before after : String → Option App} {call : Call} {result : Option App}
    (h : call.Applies before after result) {id : String} {row : App} (hrow : before id = some row) :
    ∃ row', after id = some row' ∧ row.Precedes row' := by
  have hset : ∀ {appId old new}, after = Function.update before appId (some new) → before appId = some old →
      old.Precedes new → ∃ row', after id = some row' ∧ row.Precedes row' := by
    intro appId old new hafter hold hprecedes
    rw [hafter, Function.update_apply]
    split
    next heq =>
      rw [heq, hold] at hrow
      cases hrow
      exact ⟨new, rfl, hprecedes⟩
    next => exact ⟨row, hrow, .refl row⟩
  cases h with
  | @create input appId apiKey secret t fresh sets =>
    have hne : id ≠ appId := by
      rintro rfl
      rw [fresh] at hrow
      cases hrow
    rw [sets, Function.update_of_ne hne]
    exact ⟨row, hrow, .refl row⟩
  | update t found patched sets => exact hset sets found (by rw [patched]; exact ⟨le_max_left .., fun h => h⟩)
  | disable t found disabled sets => exact hset sets found (by rw [disabled]; exact ⟨le_max_left .., fun _ => rfl⟩)
  | rotate t found sets => exact hset sets found ⟨le_max_left .., fun h => h⟩

/-- **Updates are atomic patches**, in every run of any calls. -/
theorem updates_are_atomic_patches (E : Env) (patience : Nat) (data : Tables) (hdata : Sound E data)
    (ts : List AppTurn) :
    AtomicPatches E patience data ts := by
  obtain ⟨Q, modes, h⟩ := exists_tracked patience hdata ts
  refine ⟨fun i t hi => ?_, fun n appId input app hcall => ?_, fun i j n c c' hi hj hchanged hchanged' => ?_,
    fun i id row hrow => ?_, fun i j id row hij hrow => ?_⟩
  · refine (h.turns i t hi).imp (congrArg rows) ?_
    rintro ⟨n, c, call, result, ht, hcall, hperforms⟩
    exact ⟨n, c, call, result, ht, hcall, hperforms.applies⟩
  · obtain ⟨p, hp, hdelivered⟩ := h.follow.mode_of_call (h.refined.returned hcall)
    obtain ⟨hlabel, hpast⟩ := h.past n _ p hp
    have hphase : p.phase = .performed (some app) := hdelivered
    rw [Past, hphase, hlabel] at hpast
    obtain ⟨i, c, hi, hperforms, hothers⟩ := hpast
    exact ⟨i, c, hi, hperforms.applies, fun j c' hj hne => congrArg rows (hothers j c' hj hne)⟩
  · have huntouched : ¬ Untouched E patience data ts n := fun huntouched => hchanged (congrArg rows (huntouched i c hi))
    have htouched : ∀ {call result}, Touched E patience data ts n call result → i = j := by
      rintro call result ⟨k, -, -, -, hothers⟩
      have hik : i = k := by
        by_contra hne
        exact hchanged (congrArg rows (hothers i c hi hne))
      have hjk : j = k := by
        by_contra hne
        exact hchanged' (congrArg rows (hothers j c' hj hne))
      rw [hik, hjk]
    cases hn : modes[n]? with
    | none => exact absurd (h.later n (List.getElem?_eq_none_iff.mp hn)) huntouched
    | some x =>
      obtain ⟨call, p⟩ := x
      have hpast := (h.past n call p hn).2
      unfold Past at hpast
      split at hpast
      · exact absurd hpast.1 huntouched
      · exact htouched hpast
      · obtain ⟨result, hpast⟩ := hpast.resolve_left huntouched
        exact htouched hpast
  · obtain ⟨Q', modes', h'⟩ := exists_tracked patience hdata (ts.take i)
    exact (h'.sound id row hrow).1
  · induction j, hij using Nat.le_induction with
    | base => exact ⟨row, hrow, App.Precedes.refl row⟩
    | succ j hij ih =>
      obtain ⟨row', hrow', htime, henabled⟩ := ih
      obtain ⟨row'', hrow'', htime', henabled'⟩ :
          ∃ row'', rowsAt E patience data ts (j + 1) id = some row'' ∧ row'.Precedes row'' := by
        have hsame (heq : rowsAt E patience data ts (j + 1) = rowsAt E patience data ts j) :
            ∃ row'', rowsAt E patience data ts (j + 1) id = some row'' ∧ row'.Precedes row'' :=
          ⟨row', by rw [heq, hrow'], .refl row'⟩
        cases hj : ts[j]? with
        | none =>
          have hlength : ts.length ≤ j := List.getElem?_eq_none_iff.mp hj
          refine hsame ?_
          rw [rowsAt, rowsAt, dataAt, dataAt, take_of_length_le hlength, take_of_length_le (by omega)]
        | some t =>
          rcases h.turns j t hj with hstill | ⟨n, c, call, result, -, -, hperforms⟩
          · exact hsame (congrArg rows hstill)
          · exact hperforms.applies.monotone hrow'
      exact ⟨row'', hrow'', htime.trans htime', fun h => henabled' (henabled h)⟩

theorem sound_sampleTables : Sound sampleEnv sampleTables := by
  intro id row hrow
  change (if id = "app_a" then some sampleApp else none) = some row at hrow
  split at hrow
  next hid =>
    cases hrow
    exact ⟨by decide +kernel, hid.symm⟩
  next => cases hrow

/-- Two updates of different fields: both read the application, then one is carried out, and then the other, which
finds the row changed and starts again. -/
def sampleRun : List AppTurn :=
  let steps (n count : Nat) (t : Int) : List AppTurn := List.replicate count (.step n ⟨t, .answered⟩)
  [.start (.update "app_a" ⟨some "billing", none, none⟩), .start (.update "app_a" ⟨none, none, some .websocket⟩)] ++
    steps 0 1 5 ++ steps 1 1 5 ++ steps 0 5 6 ++ steps 1 11 7

theorem updates_are_atomic_patches_sample :
    rowsAt sampleEnv 1 sampleTables sampleRun sampleRun.length "app_a" =
        some ⟨"app_a", "billing", none, .websocket, true, 0, 7⟩ ∧
      AtomicPatches sampleEnv 1 sampleTables sampleRun :=
  ⟨by decide +kernel, updates_are_atomic_patches _ _ _ sound_sampleTables _⟩

end RelayHub.Apps
