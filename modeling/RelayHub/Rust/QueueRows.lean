/-! # RelayHub Rust backend — the rows of the queue

What the statements of queue_public.rs make of one row of `queue_deliveries`: the row that they store,
or `none` if their WHERE does not find it. Times are microseconds. -/

namespace RelayHub.Rust

/-- The columns of a lease are NULL unless the status is in_flight. -/
inductive QueueStatus where
  | available
  | inFlight (receiptHash : String) (expiresAt maxExpiresAt : Int)
  | acked
  | deadLetter
  deriving DecidableEq

/-- A row of `queue_deliveries`, with what `settle` has written for its generation to `queue_delivery_attempts`: the
receipt, the attempt and the status. -/
structure QueueRow where
  id : Nat := 0
  generation : Nat := 1
  status : QueueStatus := .available
  attempts : Nat := 0
  availableAt : Int
  expiresAt : Int
  orderingKey : Option String := none
  priority : Int := 0
  createdAt : Int := 0
  settled : List (String × Nat × QueueStatus) := []
  deriving DecidableEq

/-- What `settle` is asked for. -/
inductive Disposition where
  | acked
  | available
  | deadLetter
  deriving DecidableEq

def QueueRow.inFlight (row : QueueRow) : Bool :=
  match row.status with
  | .inFlight .. => true
  | _ => false

/-- `pull`: the lease has expired. -/
def QueueRow.reclaim (maxAttempts : Nat) (now : Int) (row : QueueRow) : Option QueueRow :=
  match row.status with
  | .inFlight _ expiresAt _ =>
    if expiresAt ≤ now then some { row with status := if row.attempts ≥ maxAttempts then .deadLetter else .available }
    else none
  | _ => none

/-- `pull`: the delivery has expired. -/
def QueueRow.retire (now : Int) (row : QueueRow) : Option QueueRow :=
  if row.status = .available ∧ row.expiresAt ≤ now then some { row with status := .deadLetter } else none

def QueueRow.replay (now : Int) (row : QueueRow) : Option QueueRow :=
  if row.status = .deadLetter then
    some { row with
      status := .available, generation := row.generation + 1, attempts := 0, availableAt := now, settled := [] }
  else none

def Disposition.status (maxAttempts attempts : Nat) : Disposition → QueueStatus
  | .acked => .acked
  | .available => if attempts ≥ maxAttempts then .deadLetter else .available
  | .deadLetter => .deadLetter

/-- The UPDATE of `settle` and its INSERT, which fails if the attempt has had that outcome before. -/
def QueueRow.settle (receipt : String) (maxAttempts : Nat) (disposition : Disposition) (delay clock : Int)
    (row : QueueRow) : Option QueueRow :=
  let status := disposition.status maxAttempts row.attempts
  if ∀ x ∈ row.settled, x.2 ≠ (row.attempts, status) then
    some { row with
      status
      availableAt := if disposition = .available then clock + delay else row.availableAt
      settled := row.settled ++ [(receipt, row.attempts, status)] }
  else none

variable (digest : String → String)

/-- `pull` selects the row at `now`, and leases it by a later statement. -/
def QueueRow.lease (receipt : String) (now clock visibility maxTotal : Int) (row : QueueRow) : Option QueueRow :=
  if row.status = .available ∧ row.availableAt ≤ now ∧ now < row.expiresAt then
    some { row with
      status := .inFlight (digest receipt) (min (min (clock + visibility) (clock + maxTotal)) row.expiresAt)
        (clock + maxTotal)
      attempts := row.attempts + 1 }
  else none

/-- The row holds the lease of the receipt, and it has not expired. -/
def QueueRow.current (receipt : String) (now : Int) (row : QueueRow) : Bool :=
  match row.status with
  | .inFlight hash expiresAt _ => hash = digest receipt ∧ now < expiresAt
  | _ => false

def QueueRow.extend (receipt : String) (now seconds : Int) (row : QueueRow) : Option QueueRow :=
  match row.status with
  | .inFlight hash expiresAt maxExpiresAt =>
    if row.current digest receipt now then
      some { row with status := .inFlight hash (min (expiresAt + seconds) maxExpiresAt) maxExpiresAt }
    else none
  | _ => none

end RelayHub.Rust
