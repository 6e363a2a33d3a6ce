import Mathlib.Tactic.Linarith
import RelayHub.Queue.Settle

/-! # RelayHub Go SDK — the heartbeats of a queue worker

`processQueueDelivery` extends the lease of its delivery at every tick of `Heartbeat` while the handler runs. The
pull asks for `Visibility` and each extension for `Heartbeat`, both in whole seconds. -/

namespace RelayHub.Sdk

/-- A second. Durations are nanoseconds. -/
def second : Int := 1000000000

/-- The options that `WorkQueue` checks. -/
structure QueueWorkerOptions where
  concurrency : Int := 0
  batchSize : Int := 0
  wait : Int := 0
  visibility : Int := 0
  heartbeat : Int := 0
  deriving DecidableEq

def QueueWorkerOptions.withDefaults (o : QueueWorkerOptions) : QueueWorkerOptions where
  concurrency := if o.concurrency = 0 then 4 else o.concurrency
  batchSize := if o.batchSize = 0 then 10 else o.batchSize
  wait := if o.wait = 0 then 20 * second else o.wait
  visibility := if o.visibility = 0 then 60 * second else o.visibility
  heartbeat := if o.heartbeat = 0 then 20 * second else o.heartbeat

/-- `WorkQueue`: the options of the worker, unless they are rejected. -/
def workQueue (options : QueueWorkerOptions) : Option QueueWorkerOptions :=
  let o := options.withDefaults
  if o.concurrency < 1 ∨ o.concurrency > 100 ∨ o.batchSize < 1 ∨ o.batchSize > 100 ∨ o.wait < 0 ∨ o.wait > 30 * second
      ∨ o.visibility < second ∨ o.visibility > 3600 * second ∨ o.heartbeat < second ∨ o.heartbeat > 3600 * second then
    none
  else some o

structure QueueWorker where
  options : QueueWorkerOptions
  accepted : ∃ given, workQueue given = some options

namespace QueueWorker

variable (w : QueueWorker) {cap : Int}

/-- The visibility that the pull asks for. -/
def visibility : Int := w.options.visibility / second * second

def extension : Int := w.options.heartbeat / second * second

/-- The time of a heartbeat, the first one being number 0, of a lease that is granted at 0. -/
def beat (k : Nat) : Int := (k + 1) * w.options.heartbeat

/-- The expiry that is stored before a heartbeat, or `none` after one that has come too late. -/
def lease (cap : Int) : Nat → Option Int
  | 0 => some (min w.visibility cap)
  | k + 1 => do
    let expiry ← lease cap k
    if w.beat k < expiry then some (min (expiry + w.extension) cap) else none

/-- The row in the queue at the same time: what `ExtendQueueLeases` makes of it at every heartbeat. -/
def row (hash : String) (d : Queue.DeliveryRow) : Nat → Option Queue.DeliveryRow
  | 0 => some d
  | k + 1 => do
    let d ← row hash d k
    if d.holdsReceipt hash (w.beat k) then some (Queue.extendRow w.extension (w.beat k) d) else none

theorem row_status {d : Queue.DeliveryRow} {l : Queue.Lease} (hl : d.status = .inFlight l)
    (hexpiry : l.expiresAt = min w.visibility cap) (hcap : l.maxExpiresAt = cap) (k : Nat) :
    (w.row l.receiptHash d k).map (·.status) =
      (w.lease cap k).map fun expiry => .inFlight { l with expiresAt := expiry } := by
  induction k with
  | zero => simp [row, lease, hl, ← hexpiry]
  | succ k ih =>
    cases hrow : w.row l.receiptHash d k with
    | none =>
      have hlease : w.lease cap k = none := by simpa [hrow] using ih.symm
      simp [row, lease, hrow, hlease]
    | some d' =>
      rw [hrow] at ih
      obtain ⟨expiry, hlease, hstatus⟩ := Option.map_eq_some_iff.mp ih.symm
      by_cases hlate : w.beat k < expiry <;>
        simp [row, lease, hrow, hlease, hlate, Queue.DeliveryRow.holdsReceipt, Queue.extendRow, ← hstatus, hcap]

/-- At every heartbeat before the cap the lease has not expired. -/
def KeepsLease (cap : Int) : Prop :=
  ∀ k, w.beat k < cap → ∃ expiry, w.lease cap k = some expiry ∧ w.beat k < expiry

theorem second_le : second ≤ w.options.heartbeat := by
  obtain ⟨given, h⟩ := w.accepted
  unfold workQueue at h
  dsimp only at h
  split at h
  · cases h
  · rw [← Option.some.inj h]
    omega

/-- Nothing is added to a lease but what is asked for. -/
theorem lease_le {expiry : Int} {k : Nat} (h : w.lease cap k = some expiry) :
    expiry ≤ w.visibility + k * w.extension := by
  induction k generalizing expiry with
  | zero =>
    cases h
    simp
  | succ k ih =>
    obtain ⟨before, hbefore, h⟩ := Option.bind_eq_some_iff.mp h
    split at h
    · cases h
      have hle := ih hbefore
      rw [Nat.cast_succ, add_mul, one_mul]
      omega
    · cases h

/-- A lease that is never late has all that was asked for, up to the cap. -/
theorem lease_eq {k : Nat} (hcap : w.beat k < cap)
    (h : ∀ j, w.beat j < cap → w.beat j < w.visibility + j * w.extension) :
    w.lease cap k = some (min (w.visibility + k * w.extension) cap) := by
  have hpos := w.second_le
  have hadded : 0 ≤ w.extension := by
    simp only [extension, second] at hpos ⊢
    omega
  induction k with
  | zero => simp [lease]
  | succ k ih =>
    have hearlier : w.beat k < cap := by
      simp only [beat, second, Nat.cast_succ] at hcap hpos ⊢
      linarith
    rw [lease, ih hearlier, Option.bind_eq_bind, Option.bind_some, if_pos (lt_min (h k hearlier) hearlier),
      Nat.cast_succ, add_mul, one_mul]
    congr 1
    omega

theorem keepsLease_iff (cap : Int) :
    w.KeepsLease cap ↔ ∀ k, w.beat k < cap → w.beat k < w.visibility + k * w.extension := by
  constructor
  · intro h k hcap
    obtain ⟨expiry, hlease, hlate⟩ := h k hcap
    exact hlate.trans_le (w.lease_le hlease)
  · intro h k hcap
    exact ⟨_, w.lease_eq hcap h, lt_min (h k hcap) hcap⟩

end QueueWorker

/-- **Heartbeats keep the lease under every cap exactly if they are whole seconds apart, and fewer than it is visible
for.** Under one cap, the visibility has to last for the parts of seconds that the extensions leave out. -/
theorem heartbeats_keep_lease_iff (w : QueueWorker) :
    (∀ cap, w.KeepsLease cap ↔ ∀ k, w.beat k < cap → w.beat k < w.visibility + k * w.extension) ∧
    ((∀ cap, w.KeepsLease cap) ↔ w.options.heartbeat % second = 0 ∧ w.options.heartbeat < w.visibility) := by
  refine ⟨w.keepsLease_iff, ?_⟩
  simp only [w.keepsLease_iff]
  have hsplit : w.extension + w.options.heartbeat % second = w.options.heartbeat := Int.ediv_mul_add_emod _ _
  have hmod : 0 ≤ w.options.heartbeat % second := Int.emod_nonneg _ (by decide)
  have hpos := w.second_le
  simp only [second] at hpos
  constructor
  · intro h
    have hbeat : ∀ k, w.beat k < w.visibility + k * w.extension := fun k => h (w.beat k + 1) k (by omega)
    have hfirst : w.options.heartbeat < w.visibility := by simpa [QueueWorker.beat] using hbeat 0
    refine ⟨?_, hfirst⟩
    by_contra hne
    -- what is left out adds up to the visibility
    have hlate := hbeat w.visibility.toNat
    rw [QueueWorker.beat, Int.toNat_of_nonneg (by omega)] at hlate
    have hlost : 1 ≤ w.options.heartbeat % second := by omega
    nlinarith
  · rintro ⟨hwhole, hlt⟩ cap k -
    have heq : w.extension = w.options.heartbeat := by omega
    rw [heq, QueueWorker.beat]
    linarith

/-- A visibility of one second is accepted with the default heartbeat. -/
def impatient : QueueWorker := ⟨_, ⟨{ visibility := second }, rfl⟩⟩

theorem lease_expires_before_heartbeat :
    impatient.lease (600 * second) 0 = some second ∧ second < impatient.beat 0 ∧ impatient.beat 0 < 600 * second := by
  decide

end RelayHub.Sdk
