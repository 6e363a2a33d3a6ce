import Mathlib.Tactic.Push

/-! # RelayHub Rust backend — the rows of deliveries

Whatever a transaction writes to `deliveries` goes through the trigger `account_delivery`. -/

namespace RelayHub.Rust

abbrev Uuid := Nat

inductive DeliveryState where
  | pending
  | inFlight
  | retryWait
  | succeeded
  | dlq
  | expired
  | cancelled
  deriving DecidableEq

def DeliveryState.terminal : DeliveryState → Bool
  | .succeeded | .dlq | .expired | .cancelled => true
  | .pending | .inFlight | .retryWait => false

/-- A row of `deliveries`, with `expires_at` of its event. Times are microseconds. -/
structure Row where
  id : Uuid
  eventId : Uuid
  workspaceId : Uuid
  appId : Uuid
  generation : Nat
  payloadBytes : Nat
  expiresAt : Int
  state : DeliveryState := .pending
  terminalAt : Option Int := none
  attemptCount : Nat := 0
  attemptStartedAt : Option Int := none
  leaseExpiresAt : Option Int := none
  nextAttemptAt : Option Int := none
  deriving DecidableEq

/-- The columns that must not change. -/
def Row.identity (row : Row) : Uuid × Uuid × Uuid × Uuid × Nat × Nat :=
  (row.id, row.eventId, row.workspaceId, row.appId, row.generation, row.payloadBytes)

/-- `account_delivery` on an UPDATE: the row that is stored, or an exception. -/
def accountUpdate (now : Int) (old new : Row) : Option Row :=
  if new.identity ≠ old.identity then none
  else if old.terminalAt.isSome then
    if new.state ≠ old.state ∨ new.terminalAt ≠ old.terminalAt then none else some new
  else if new.state.terminal then some { new with terminalAt := some now }
  else if new.terminalAt.isSome then none
  else some new

/-- A terminal time stands exactly in the terminal states. -/
def Row.Coherent (row : Row) : Prop := row.terminalAt.isSome = row.state.terminal

/-- **What an UPDATE stores.** A delivery that is terminal stays what it is. -/
theorem accountUpdate_eq_some {now : Int} {old new row : Row} (h : accountUpdate now old new = some row)
    (hold : old.Coherent) :
    row.Coherent ∧ row.identity = old.identity ∧ row.state = new.state ∧
      (old.state.terminal = true → row.state = old.state) := by
  unfold accountUpdate at h
  unfold Row.Coherent at *
  split at h
  · cases h
  next hid =>
  have hid := not_not.mp hid
  split at h
  next hterminal =>
    split at h
    · cases h
    next hsame =>
      push Not at hsame
      cases h
      rw [hsame.1, hsame.2]
      exact ⟨hold, hid, rfl, fun _ => rfl⟩
  next hopen =>
  rw [← hold]
  split at h
  next hends =>
    cases h
    exact ⟨hends.symm, hid, rfl, fun hold => absurd hold hopen⟩
  next hgoes =>
  split at h
  · cases h
  next hnone =>
    cases h
    refine ⟨?_, hid, rfl, fun hold => absurd hold hopen⟩
    rw [Bool.not_eq_true] at hnone hgoes
    rw [hnone, hgoes]

theorem Row.Coherent.terminalAt_ne_none {row : Row} (h : row.Coherent) :
    row.terminalAt ≠ none ↔ row.state.terminal = true := by
  rw [← Option.isSome_iff_ne_none, h]

end RelayHub.Rust
