import Mathlib.Tactic.Linarith
import RelayHub.Lib.Mealy

/-! # Token buckets

A bucket holds up to `burst` tokens and, from empty, is full again after `window`. A draw takes its cost if
there are as many tokens. What is drawn in an interval is at most a burst and what the interval refills
(`spent_le`); a draw that is refused succeeds after a wait, and not before (`le_refill_iff_wait_le`). -/

/-- How much a bucket holds, and how long it takes to fill. -/
structure TokenBucket (K : Type*) [Zero K] [LT K] where
  burst : K
  window : K
  burst_pos : 0 < burst
  window_pos : 0 < window

namespace TokenBucket

open List

variable {K : Type*} [Field K] [LinearOrder K]

/-- The tokens in a bucket at a time. -/
@[ext] structure Level (b : TokenBucket K) where
  tokens : K
  since : K
  nonneg : 0 ≤ tokens
  le_burst : tokens ≤ b.burst

/-- Something that costs tokens. -/
structure Draw (K : Type*) [Zero K] [LT K] where
  time : K
  cost : K
  cost_pos : 0 < cost

variable {b : TokenBucket K}

/-! ## Refilling -/

/-- The tokens that come in with time. -/
def gain (b : TokenBucket K) (elapsed : K) : K := elapsed * b.burst / b.window

theorem gain_add (s t : K) : b.gain (s + t) = b.gain s + b.gain t := by
  simp only [gain, add_mul, add_div]

theorem gain_window : b.gain b.window = b.burst := mul_div_cancel_left₀ _ b.window_pos.ne'

theorem gain_zero : b.gain 0 = 0 := by simp [gain]

variable [IsStrictOrderedRing K] {ds : List (Draw K)} {lo hi : K} (l : b.Level) (d : Draw K)

theorem gain_mono {s t : K} (h : s ≤ t) : b.gain s ≤ b.gain t :=
  div_le_div_of_nonneg_right (mul_le_mul_of_nonneg_right h b.burst_pos.le) b.window_pos.le

theorem gain_nonneg {t : K} (h : 0 ≤ t) : 0 ≤ b.gain t := by
  rw [← b.gain_zero]
  exact gain_mono h

/-- A bucket that nothing has been drawn from. -/
def full (b : TokenBucket K) (now : K) : b.Level := ⟨b.burst, now, b.burst_pos.le, le_rfl⟩

/-- The tokens at another time; a clock that goes back brings none. -/
def Level.refill (l : b.Level) (now : K) : b.Level where
  tokens := min b.burst (l.tokens + b.gain (max 0 (now - l.since)))
  since := now
  nonneg := le_min b.burst_pos.le (add_nonneg l.nonneg (gain_nonneg (le_max_left _ _)))
  le_burst := min_le_left _ _

theorem tokens_refill_le {now : K} (h : l.since ≤ now) : (l.refill now).tokens ≤ l.tokens + b.gain (now - l.since) := by
  refine (min_le_right _ _).trans ?_
  rw [max_eq_right (sub_nonneg.mpr h)]

theorem tokens_refill_of_window_le {now : K} (h : l.since + b.window ≤ now) : (l.refill now).tokens = b.burst := by
  refine min_eq_left ?_
  have helapsed : b.window ≤ max 0 (now - l.since) := le_max_of_le_right (by linarith)
  calc b.burst = b.gain b.window := gain_window.symm
    _ ≤ b.gain (max 0 (now - l.since)) := gain_mono helapsed
    _ ≤ l.tokens + b.gain (max 0 (now - l.since)) := le_add_of_nonneg_left l.nonneg

theorem refill_since : l.refill l.since = l := by
  ext
  · change min b.burst (l.tokens + b.gain (max 0 (l.since - l.since))) = l.tokens
    rw [sub_self, max_self, gain_zero, add_zero]
    exact min_eq_right l.le_burst
  · rfl

/-- How long it takes until a cost is covered. -/
def Level.wait (l : b.Level) (cost : K) : K := (cost - l.tokens) * b.window / b.burst

/-- **A cost is covered after its wait, and not before.** -/
theorem le_refill_iff_wait_le {cost : K} (hle : cost ≤ b.burst) (hlt : l.tokens < cost) (delay : K) :
    cost ≤ (l.refill (l.since + delay)).tokens ↔ l.wait cost ≤ delay := by
  have hwait : 0 < l.wait cost := div_pos (mul_pos (sub_pos.mpr hlt) b.window_pos) b.burst_pos
  have hcovered : cost ≤ (l.refill (l.since + delay)).tokens ↔ cost - l.tokens ≤ b.gain (max 0 delay) := by
    rw [Level.refill, le_min_iff, add_sub_cancel_left, sub_le_iff_le_add']
    exact and_iff_right hle
  rw [hcovered, gain, le_div_iff₀ b.window_pos, ← div_le_iff₀ b.burst_pos]
  rw [le_max_iff]
  exact or_iff_right hwait.not_ge

/-! ## Drawing -/

/-- The tokens without a cost that they cover. -/
def Level.spend (l : b.Level) (cost : K) (hpos : 0 < cost) (hle : cost ≤ l.tokens) : b.Level where
  tokens := l.tokens - cost
  since := l.since
  nonneg := sub_nonneg.mpr hle
  le_burst := by linarith [l.le_burst]

def Level.draw (l : b.Level) (d : Draw K) : Bool × b.Level :=
  if h : d.cost ≤ (l.refill d.time).tokens then (true, (l.refill d.time).spend d.cost d.cost_pos h)
  else (false, l.refill d.time)

@[simp] theorem since_draw : (l.draw d).2.since = d.time := by
  unfold Level.draw
  split <;> rfl

theorem draw_refill : (l.refill d.time).draw d = l.draw d := by
  have hrefill : (l.refill d.time).refill d.time = l.refill d.time := refill_since (l.refill d.time)
  unfold Level.draw
  simp only [hrefill]

theorem draw_fst_iff : (l.draw d).1 = true ↔ d.cost ≤ (l.refill d.time).tokens := by
  unfold Level.draw
  split
  next h => simpa using h
  next h => simpa using h

/-- What a draw pays. -/
def Level.paid (l : b.Level) (d : Draw K) : K := if (l.draw d).1 = true then d.cost else 0

theorem paid_add_tokens_draw : l.paid d + (l.draw d).2.tokens = (l.refill d.time).tokens := by
  unfold Level.paid Level.draw
  split
  · simp [Level.spend]
  · simp

/-- A bucket, as draws are made on it. -/
def machine (b : TokenBucket K) : Mealy b.Level (Draw K) Bool := ⟨Level.draw⟩

/-- What a run spends from `lo` to `hi`. -/
def spent (l : b.Level) (ds : List (Draw K)) (lo hi : K) : K :=
  ((b.machine.transitions l ds).map fun t =>
    if lo ≤ t.input.time ∧ t.input.time ≤ hi then t.pre.paid t.input else 0).sum

theorem spent_cons (ds : List (Draw K)) (lo hi : K) : spent l (d :: ds) lo hi =
      (if lo ≤ d.time ∧ d.time ≤ hi then l.paid d else 0) + spent (l.draw d).2 ds lo hi := rfl

theorem spent_eq_zero (h : ∀ d ∈ ds, hi < d.time) : spent l ds lo hi = 0 := by
  induction ds generalizing l with
  | nil => rfl
  | cons d ds ih =>
    have hd := h d mem_cons_self
    rw [spent_cons, ih _ fun e he => h e (mem_cons_of_mem _ he), if_neg (fun hin => hd.not_ge hin.2), add_zero]

theorem paid_nonneg : 0 ≤ l.paid d := by
  unfold Level.paid
  split
  · exact d.cost_pos.le
  · exact le_rfl

/-- From a level on, a run spends what there is and what comes in. -/
theorem spent_le_tokens (hhi : l.since ≤ hi) (hsince : ∀ d ∈ ds, l.since ≤ d.time)
    (hsorted : ds.Pairwise fun d e => d.time ≤ e.time) : spent l ds lo hi ≤ l.tokens + b.gain (hi - l.since) := by
  have hbound := fun l : b.Level => fun h : l.since ≤ hi =>
    add_nonneg l.nonneg (b.gain_nonneg (sub_nonneg.mpr h))
  induction ds generalizing l with
  | nil => exact hbound l hhi
  | cons d ds ih =>
    obtain ⟨hlater, hsorted⟩ := pairwise_cons.mp hsorted
    rcases lt_or_ge hi d.time with hafter | hbefore
    · -- this draw and all that follow are too late
      have hall : ∀ e ∈ d :: ds, hi < e.time := by
        rintro e (_ | ⟨_, he⟩)
        · exact hafter
        · exact hafter.trans_le (hlater e he)
      rw [spent_eq_zero l hall]
      exact hbound l hhi
    · have hrest := ih (l.draw d).2 (by simpa using hbefore) (by simpa using hlater) hsorted
      have hpaid : (if lo ≤ d.time ∧ d.time ≤ hi then l.paid d else 0) ≤ l.paid d := by
        split
        · exact le_rfl
        · exact paid_nonneg l d
      have htokens := paid_add_tokens_draw l d
      have hrefill := tokens_refill_le l (hsince d mem_cons_self)
      have hsplit := b.gain_add (d.time - l.since) (hi - d.time)
      rw [add_comm, sub_add_sub_cancel] at hsplit
      rw [since_draw] at hrest
      rw [spent_cons]
      linarith

/-- **The bound of a bucket.** What is spent in an interval is at most a burst and what comes in meanwhile. -/
theorem spent_le (hlo : lo ≤ hi) (hsorted : ds.Pairwise fun d e => d.time ≤ e.time) :
    spent l ds lo hi ≤ b.burst + b.gain (hi - lo) := by
  have hbound : 0 ≤ b.burst + b.gain (hi - lo) := add_nonneg b.burst_pos.le (gain_nonneg (sub_nonneg.mpr hlo))
  induction ds generalizing l with
  | nil => exact hbound
  | cons d ds ih =>
    obtain ⟨hlater, hsorted'⟩ := pairwise_cons.mp hsorted
    have hall : ∀ e ∈ d :: ds, d.time ≤ e.time := by
      rintro e (_ | ⟨_, he⟩)
      · exact le_rfl
      · exact hlater e he
    rcases lt_or_ge d.time lo with hearly | hlate
    · rw [spent_cons, if_neg (fun hin => hearly.not_ge hin.1), zero_add]
      exact ih _ hsorted'
    · rcases lt_or_ge hi d.time with hafter | hbefore
      · rw [spent_eq_zero l fun e he => hafter.trans_le (hall e he)]
        exact hbound
      · -- from the first draw of the interval on, the level that it finds bounds what is spent
        have hfirst : spent l (d :: ds) lo hi = spent (l.refill d.time) (d :: ds) lo hi := by
          rw [spent_cons, spent_cons, Level.paid, Level.paid, draw_refill]
        rw [hfirst]
        calc spent (l.refill d.time) (d :: ds) lo hi
            ≤ (l.refill d.time).tokens + b.gain (hi - d.time) := spent_le_tokens _ hbefore hall hsorted
          _ ≤ b.burst + b.gain (hi - lo) := add_le_add (l.refill d.time).le_burst (gain_mono (by linarith))

end TokenBucket
