import Mathlib.Algebra.Order.BigOperators.Group.List
import Mathlib.Data.Rat.Floor
import RelayHub.Lib.Program
import RelayHub.Lib.Text
import RelayHub.Lib.TokenBucket

/-! # RelayHub state — the rate limiter

A script on Redis keeps the tokens of a key in a hash, refills them by the time that has passed and takes
the cost of a call. The hash expires two windows after its last update. The numbers of the script are
rationals here.

`Represents` relates the hash to the bucket of `TokenBucket`, an expired one to a bucket that is full again by
then; `represents_run` carries it through every run. -/

namespace RelayHub.State

open List Text TokenBucket

/-! ## The script -/

/-- The hash under a key, and when it expires. -/
structure RateHash where
  tokens : ℚ
  lastMs : ℤ
  expiresMs : ℤ

structure ScriptReply where
  allowed : Bool
  tokens : ℚ
  resetMs : ℤ
  retryMs : ℤ

/-- The end of `tokenBucketScript`: what it stores and returns. -/
def store (nowMs burst windowMs ttlMs : ℤ) (allowed : Bool) (tokens : ℚ) (retryMs : ℤ) : ScriptReply × RateHash :=
  let resetMs := nowMs + ⌈((burst : ℚ) - tokens) * windowMs / burst⌉
  (⟨allowed, tokens, resetMs, retryMs⟩, ⟨tokens, nowMs, nowMs + ttlMs⟩)

def tokenBucketScript (nowMs burst windowMs cost ttlMs : ℤ) (state : Option RateHash) : ScriptReply × RateHash :=
  let tokens : ℚ := (state.map RateHash.tokens).getD burst
  let lastMs := (state.map RateHash.lastMs).getD nowMs
  let elapsedMs := max 0 (nowMs - lastMs)
  let tokens := min (burst : ℚ) (tokens + elapsedMs * burst / windowMs)
  if (cost : ℚ) ≤ tokens then store nowMs burst windowMs ttlMs true (tokens - cost) 0
  else store nowMs burst windowMs ttlMs false tokens ⌈((cost : ℚ) - tokens) * windowMs / burst⌉

/-! ## The limiter -/

def validRateLimitKey (key : String) : Bool :=
  decide (key ≠ "") && decide (key.utf8ByteSize ≤ 512)
    && (match key.toList.idxOf? '\x7b', key.toList.idxOf? '\x7d' with
      | some opened, some closed =>
        decide (opened + 1 < closed) && !(key.toList.drop (opened + 1)).contains '\x7b'
          && !(key.toList.drop (closed + 1)).contains '\x7d'
      | _, _ => false)
    && key.toList.all fun c => !isSpace c && !isControl c

inductive RateError where
  | invalidRecord
  | unavailable
  deriving DecidableEq

structure RateDecision where
  allowed : Bool
  remaining : ℚ
  resetAt : ℤ
  retryAfter : ℤ

def millisecond : ℤ := 1000000
def second : ℤ := 1000 * millisecond
def day : ℤ := 24 * 3600 * second

/-- The reply of the script, as `Allow` checks it. -/
def ScriptReply.decision (limit : ℤ) (r : ScriptReply) : Except RateError RateDecision :=
  if r.tokens < 0 ∨ (limit : ℚ) < r.tokens ∨ r.resetMs ≤ 0 ∨ r.retryMs < 0 then .error .unavailable
  else .ok ⟨r.allowed, r.tokens, r.resetMs, r.retryMs⟩

/-- `Allow`. Durations are nanoseconds. -/
def allow (key : String) (limit window cost nowMs : ℤ) (fate : Fate) (state : Option RateHash) :
    Except RateError RateDecision × Option RateHash :=
  if validRateLimitKey key = false ∨ limit ≤ 0 ∨ 2 ^ 53 < limit ∨ cost ≤ 0 ∨ limit < cost ∨
    window < second ∨ day < window
  then (.error .invalidRecord, state)
  else
    let r := tokenBucketScript nowMs limit (window / millisecond) cost (2 * window / millisecond) state
    match fate with
    | .answered => (r.1.decision limit, some r.2)
    | .lost => (.error .unavailable, some r.2)
    | .refused => (.error .unavailable, state)

/-- A limit that `Allow` accepts. -/
structure RateLimit where
  key : String
  limit : ℤ
  window : ℤ
  key_valid : validRateLimitKey key = true
  limit_pos : 0 < limit
  limit_le : limit ≤ 2 ^ 53
  second_le : second ≤ window
  le_day : window ≤ day

/-- What happens to a key: a call on it, or Redis finding that it has expired. -/
inductive RateInput where
  | call (cost : ℤ) (nowMs : ℕ) (fate : Fate)
  | expire (nowMs : ℕ)

def RateInput.nowMs : RateInput → ℕ
  | .call _ now _ | .expire now => now

def RateInput.isCall : RateInput → Bool
  | .call _ _ _ => true
  | .expire _ => false

/-- A key that is limited. -/
def limiter (r : RateLimit) : Mealy (Option RateHash) RateInput (Option (Except RateError RateDecision)) where
  exec state
    | .call cost nowMs fate =>
      let x := allow r.key r.limit r.window cost nowMs fate state
      (some x.1, x.2)
    | .expire nowMs => (none, state.filter fun h => nowMs < h.expiresMs)

/-- The clock of Redis does not go back. -/
def Ordered (is : List RateInput) : Prop := is.Pairwise fun i j => i.nowMs ≤ j.nowMs

/-! ## The bucket of a limit -/

section Bucket

variable (r : RateLimit)

def RateLimit.windowMs : ℤ := r.window / millisecond

def RateLimit.ttlMs : ℤ := 2 * r.window / millisecond

theorem RateLimit.windowMs_pos : 0 < r.windowMs := by
  have h := r.second_le
  unfold RateLimit.windowMs second millisecond at *
  omega

theorem RateLimit.windowMs_le_ttlMs : r.windowMs ≤ r.ttlMs := by
  have h := r.second_le
  unfold RateLimit.windowMs RateLimit.ttlMs second millisecond at *
  omega

/-- The bucket that the hash of a key stands for. -/
def RateLimit.bucket : TokenBucket ℚ :=
  ⟨r.limit, r.windowMs, by exact_mod_cast r.limit_pos, by exact_mod_cast r.windowMs_pos⟩

/-- What a call draws, unless it is turned away before the script runs. -/
def RateInput.draw : RateInput → Option (TokenBucket.Draw ℚ)
  | .call cost nowMs fate =>
    if h : 0 < cost ∧ cost ≤ r.limit ∧ fate ≠ .refused then some ⟨nowMs, cost, by exact_mod_cast h.1⟩ else none
  | .expire _ => none

/-- What a script tells that runs on a level of the bucket. -/
def decisionAt (l : r.bucket.Level) (d : TokenBucket.Draw ℚ) (nowMs : ℤ) : RateDecision where
  allowed := (l.draw d).1
  remaining := (l.draw d).2.tokens
  resetAt := nowMs + ⌈((r.limit : ℚ) - (l.draw d).2.tokens) * r.windowMs / r.limit⌉
  retryAfter := if (l.draw d).1 = true then 0 else ⌈(l.refill d.time).wait d.cost⌉

/-- The reply that tells a decision. -/
def RateDecision.reply (d : RateDecision) : ScriptReply := ⟨d.allowed, d.remaining, d.resetAt, d.retryAfter⟩

/-- The same calls on a bucket that never expires. -/
def ideal : Mealy r.bucket.Level RateInput (Option (Except RateError RateDecision)) where
  exec l i :=
    match i.draw r with
    | some d =>
      match i with
      | .call _ nowMs .answered => (some (.ok (decisionAt r l d nowMs)), (l.draw d).2)
      | _ => (some (.error .unavailable), (l.draw d).2)
    | none =>
      match i with
      | .call cost _ _ =>
        (some (.error (if 0 < cost ∧ cost ≤ r.limit then .unavailable else .invalidRecord)), l)
      | .expire _ => (none, l)

/-- The hash holds a level of the bucket; without one, the bucket is full from `nowMs` on. -/
def Represents (nowMs : ℕ) (l : r.bucket.Level) : Option RateHash → Prop
  | some h => h.tokens = l.tokens ∧ (h.lastMs : ℚ) = l.since ∧ h.expiresMs = h.lastMs + r.ttlMs
  | none => ∀ later : ℕ, nowMs ≤ later → (l.refill later).tokens = r.bucket.burst

variable {r} {nowMs : ℕ} {l : r.bucket.Level} {state : Option RateHash} {cost : ℤ} {is : List RateInput}

section

variable (h : Represents r nowMs l state)

include h

theorem Represents.mono {later : ℕ} (hle : nowMs ≤ later) : Represents r later l state := by
  cases state with
  | some => exact h
  | none => exact fun t ht => h t (hle.trans ht)

theorem Represents.tokens_refill : min (r.limit : ℚ) ((state.map RateHash.tokens).getD r.limit +
      (max 0 ((nowMs : ℤ) - (state.map RateHash.lastMs).getD nowMs) : ℤ) * r.limit / r.windowMs) =
      (l.refill nowMs).tokens := by
  cases state with
  | some hash =>
    obtain ⟨htokens, hsince, -⟩ := h
    have helapsed : ((max 0 ((nowMs : ℤ) - hash.lastMs) : ℤ) : ℚ) = max 0 ((nowMs : ℚ) - l.since) := by
      rw [← hsince]
      push_cast
      rfl
    simp only [Option.map_some, Option.getD_some]
    rw [helapsed, htokens]
    rfl
  | none =>
    rw [h nowMs le_rfl]
    simp only [Option.map_none, Option.getD_none, sub_self, max_self, Int.cast_zero, zero_mul, zero_div, add_zero,
      min_self]
    rfl

/-- **The script draws on the bucket.** -/
theorem Represents.script (d : TokenBucket.Draw ℚ) (htime : d.time = nowMs) (hcost : d.cost = cost) :
    tokenBucketScript nowMs r.limit r.windowMs cost r.ttlMs state =
      ((decisionAt r l d nowMs).reply, ⟨(l.draw d).2.tokens, nowMs, nowMs + r.ttlMs⟩) := by
  have hrefill := h.tokens_refill
  rw [← htime] at hrefill
  unfold tokenBucketScript
  simp only
  rw [hrefill, ← hcost]
  by_cases hle : d.cost ≤ (l.refill d.time).tokens
  · have hdraw : l.draw d = (true, (l.refill d.time).spend d.cost d.cost_pos hle) := dif_pos hle
    simp only [decisionAt, hdraw, if_pos hle]
    rfl
  · have hdraw : l.draw d = (false, l.refill d.time) := dif_neg hle
    simp only [decisionAt, hdraw, if_neg hle]
    rfl

end

theorem tokens_draw_lt (d : TokenBucket.Draw ℚ) (hle : d.cost ≤ r.bucket.burst) :
    (l.draw d).2.tokens < r.bucket.burst := by
  have hpos := d.cost_pos
  unfold TokenBucket.Level.draw
  split
  · have := (l.refill d.time).le_burst
    simp only [TokenBucket.Level.spend]
    linarith
  · next h => exact (not_le.mp h).trans_le hle

theorem decision_reply (d : TokenBucket.Draw ℚ) (hle : d.cost ≤ r.bucket.burst) :
    (decisionAt r l d nowMs).reply.decision r.limit = .ok (decisionAt r l d nowMs) := by
  have hlimit : (0 : ℚ) < r.limit := r.bucket.burst_pos
  have hwindow : (0 : ℚ) < r.windowMs := r.bucket.window_pos
  have hreset : 0 < (decisionAt r l d nowMs).resetAt := by
    have hpos : 0 < ⌈((r.limit : ℚ) - (l.draw d).2.tokens) * r.windowMs / r.limit⌉ :=
      Int.ceil_pos.mpr (div_pos (mul_pos (sub_pos.mpr (tokens_draw_lt d hle)) hwindow) hlimit)
    simp only [decisionAt]
    omega
  have hretry : 0 ≤ (decisionAt r l d nowMs).retryAfter := by
    unfold decisionAt
    split
    · exact le_rfl
    · next hrefused =>
      rw [draw_fst_iff, not_le] at hrefused
      exact Int.ceil_nonneg (div_nonneg (mul_nonneg (sub_nonneg.mpr hrefused.le) hwindow.le) hlimit.le)
  refine if_neg ?_
  rintro (hneg | hbig | hres | hret)
  · exact absurd (l.draw d).2.nonneg (not_le.mpr hneg)
  · exact absurd (l.draw d).2.le_burst (not_le.mpr hbig)
  · exact absurd hreset (not_lt.mpr hres)
  · exact absurd hretry (not_le.mpr hret)

/-- What `Allow` does with a limit that it accepts. -/
theorem allow_eq (r : RateLimit) (cost nowMs : ℤ) (fate : Fate) (state : Option RateHash) :
    allow r.key r.limit r.window cost nowMs fate state = if 0 < cost ∧ cost ≤ r.limit then
        let x := tokenBucketScript nowMs r.limit r.windowMs cost r.ttlMs state
        match fate with
        | .answered => (x.1.decision r.limit, some x.2)
        | .lost => (.error .unavailable, some x.2)
        | .refused => (.error .unavailable, state)
      else (.error .invalidRecord, state) := by
  have hkey := r.key_valid
  have hle := r.limit_le
  have hsecond := r.second_le
  have hday := r.le_day
  unfold allow
  by_cases hcost : 0 < cost ∧ cost ≤ r.limit
  · rw [if_pos hcost, if_neg]
    · rfl
    rw [hkey]
    rintro (h | h | h | h | h | h | h)
    · cases h
    all_goals omega
  · rw [if_neg hcost, if_pos]
    omega

theorem draw_call (hcost : 0 < cost ∧ cost ≤ r.limit) (nowMs : ℕ) {fate : Fate} (hfate : fate ≠ .refused) :
    (RateInput.call cost nowMs fate).draw r = some ⟨nowMs, cost, by exact_mod_cast hcost.1⟩ :=
  dif_pos ⟨hcost.1, hcost.2, hfate⟩

/-- **A call does to the hash what it does to the bucket, and tells the same.** -/
theorem Represents.step (i : RateInput) (h : Represents r i.nowMs l state) :
    (limiter r).out state i = (ideal r).out l i ∧
      Represents r i.nowMs ((ideal r).next l i) ((limiter r).next state i) := by
  cases i with
  | expire nowMs =>
    refine ⟨rfl, ?_⟩
    cases state with
    | none => exact h
    | some hash =>
      change Represents r nowMs l ((some hash).filter fun h => (nowMs : ℤ) < h.expiresMs)
      rw [Option.filter_some]
      split
      · exact h
      next hexpired =>
      -- the hash has not been updated for a window, so the bucket is full
      intro later hlater
      obtain ⟨-, hsince, hexpires⟩ := h
      apply tokens_refill_of_window_le
      have hwindow := r.windowMs_le_ttlMs
      have hpast : hash.lastMs + r.windowMs ≤ (later : ℤ) := by
        rw [decide_eq_true_eq, not_lt] at hexpired
        have : (nowMs : ℤ) ≤ later := by exact_mod_cast hlater
        omega
      rw [← hsince]
      change (hash.lastMs : ℚ) + (r.windowMs : ℚ) ≤ later
      exact_mod_cast hpast
  | call cost nowMs fate =>
    by_cases hcost : 0 < cost ∧ cost ≤ r.limit
    · have h : Represents r nowMs l state := h
      have hscript : tokenBucketScript nowMs r.limit r.windowMs cost r.ttlMs state = _ :=
        h.script ⟨nowMs, cost, by exact_mod_cast hcost.1⟩ rfl rfl
      have hburst : (cost : ℚ) ≤ r.limit := by exact_mod_cast hcost.2
      cases fate with
      | refused =>
        have hdraw : (RateInput.call cost nowMs .refused).draw r = none := dif_neg (by simp)
        simp only [Mealy.out, Mealy.next, limiter, ideal, hdraw, allow_eq, if_pos hcost]
        exact ⟨trivial, h⟩
      | answered =>
        have hdraw := draw_call hcost nowMs (by decide : Fate.answered ≠ .refused)
        simp only [Mealy.out, Mealy.next, limiter, ideal, hdraw, allow_eq, if_pos hcost]
        rw [hscript]
        exact ⟨congrArg some (decision_reply _ hburst), rfl, by simp, rfl⟩
      | lost =>
        have hdraw := draw_call hcost nowMs (by decide : Fate.lost ≠ .refused)
        simp only [Mealy.out, Mealy.next, limiter, ideal, hdraw, allow_eq, if_pos hcost]
        rw [hscript]
        exact ⟨trivial, rfl, by simp, rfl⟩
    · have hdraw : (RateInput.call cost nowMs fate).draw r = none := dif_neg fun hall => hcost ⟨hall.1, hall.2.1⟩
      simp only [Mealy.out, Mealy.next, limiter, ideal, hdraw, allow_eq, if_neg hcost]
      exact ⟨trivial, h⟩

/-! ## Runs -/

/-- **A run on the hash is a run on the bucket.** -/
theorem Represents.run (h : Represents r nowMs l state) (hlater : ∀ i ∈ is, nowMs ≤ i.nowMs) (hordered : Ordered is) :
    (limiter r).trace state is = (ideal r).trace l is ∧ ∀ later, nowMs ≤ later → (∀ i ∈ is, i.nowMs ≤ later) →
        Represents r later ((ideal r).run l is) ((limiter r).run state is) := by
  induction is generalizing nowMs l state with
  | nil => exact ⟨rfl, fun later hle _ => h.mono hle⟩
  | cons i is ih =>
    obtain ⟨hfirst, hordered⟩ := pairwise_cons.mp hordered
    obtain ⟨hout, hnext⟩ := (h.mono (hlater i mem_cons_self)).step i
    obtain ⟨htrace, hrun⟩ := ih hnext hfirst hordered
    refine ⟨?_, fun later _ hall => ?_⟩
    · rw [Mealy.trace, Mealy.trace, hout, htrace]
    · exact hrun later (hall i mem_cons_self) fun j hj => hall j (mem_cons_of_mem _ hj)

theorem represents_none (r : RateLimit) (nowMs : ℕ) : Represents r nowMs (r.bucket.full 0) none := by
  intro later _
  refine min_eq_left ?_
  exact le_add_of_nonneg_right (gain_nonneg (le_max_left _ _))

theorem trace_limiter (h : Ordered is) : (limiter r).trace none is = (ideal r).trace (r.bucket.full 0) is :=
  ((represents_none r 0).run (fun _ _ => Nat.zero_le _) h).1

variable {i : RateInput} {d : TokenBucket.Draw ℚ} {decision : RateDecision}

theorem out_limiter {js : List RateInput} (h : Ordered (is ++ i :: js)) :
    (limiter r).out ((limiter r).run none is) i = (ideal r).out ((ideal r).run (r.bucket.full 0) is) i := by
  obtain ⟨hordered, -, hbefore⟩ := pairwise_append.mp h
  have hrun := ((represents_none r 0).run (fun _ _ => Nat.zero_le _) hordered).2 i.nowMs (Nat.zero_le _)
    fun j hj => hbefore j hj i mem_cons_self
  exact (hrun.step i).1

/-! ### What is admitted -/

/-- The cost that a call is told to be allowed, if its time is from `lo` to `hi`. -/
def admittedBy (lo hi : ℚ) : RateInput × Option (Except RateError RateDecision) → ℚ
  | (.call cost nowMs _, some (.ok decision)) =>
    if decision.allowed = true ∧ lo ≤ nowMs ∧ (nowMs : ℚ) ≤ hi then cost else 0
  | _ => 0

/-- The total cost admitted from `lo` to `hi`. -/
def admitted (r : RateLimit) (is : List RateInput) (lo hi : ℚ) : ℚ :=
  (((limiter r).trace none is).map (admittedBy lo hi)).sum

theorem next_ideal_of_draw (h : i.draw r = some d) : (ideal r).next l i = (l.draw d).2 := by
  simp only [Mealy.next, ideal, h]
  split <;> rfl

theorem next_ideal_of_no_draw (h : i.draw r = none) : (ideal r).next l i = l := by
  simp only [Mealy.next, ideal, h]
  split <;> rfl

theorem draw_eq_some (h : i.draw r = some d) :
    ∃ (cost : ℤ) (nowMs : ℕ) (fate : Fate), i = .call cost nowMs fate ∧ fate ≠ .refused ∧
      d.time = nowMs ∧ d.cost = cost := by
  cases i with
  | expire => cases h
  | call cost nowMs fate =>
    by_cases hcall : 0 < cost ∧ cost ≤ r.limit ∧ fate ≠ .refused
    · obtain rfl := Option.some.inj ((dif_pos hcall).symm.trans h)
      exact ⟨cost, nowMs, fate, rfl, hcall.2.2, rfl, rfl⟩
    · exact absurd ((dif_neg hcall).symm.trans h) (by simp)

theorem admittedBy_of_no_draw (h : i.draw r = none) (lo hi : ℚ) : admittedBy lo hi (i, (ideal r).out l i) = 0 := by
  simp only [Mealy.out, ideal, h]
  split <;> rfl

theorem admittedBy_le (h : i.draw r = some d) (lo hi : ℚ) :
    admittedBy lo hi (i, (ideal r).out l i) ≤ if lo ≤ d.time ∧ d.time ≤ hi then l.paid d else 0 := by
  obtain ⟨cost, nowMs, fate, rfl, hfate, htime, hcost⟩ := draw_eq_some h
  cases fate with
  | refused => exact absurd rfl hfate
  | lost =>
    simp only [Mealy.out, ideal, h]
    split
    · exact paid_nonneg l d
    · exact le_rfl
  | answered =>
    simp only [Mealy.out, ideal, h, admittedBy, decisionAt, TokenBucket.Level.paid]
    rw [htime]
    split_ifs <;> simp_all

theorem admitted_le_spent (is : List RateInput) (lo hi : ℚ) :
    (((ideal r).trace l is).map (admittedBy lo hi)).sum ≤ spent l (is.filterMap (RateInput.draw r)) lo hi := by
  induction is generalizing l with
  | nil => exact le_rfl
  | cons i is ih =>
    rw [Mealy.trace, map_cons, sum_cons]
    cases h : i.draw r with
    | none =>
      rw [filterMap_cons_none h, admittedBy_of_no_draw h, next_ideal_of_no_draw h, zero_add]
      exact ih
    | some =>
      rw [filterMap_cons_some h, next_ideal_of_draw h]
      exact add_le_add (admittedBy_le h lo hi) ih

theorem pairwise_draws (h : Ordered is) : (is.filterMap (RateInput.draw r)).Pairwise fun d e => d.time ≤ e.time := by
  refine .filterMap _ (fun i j hij d hd e he => ?_) h
  obtain ⟨_, nowMs, _, rfl, -, htime, -⟩ := draw_eq_some hd
  obtain ⟨_, nowMs', _, rfl, -, htime', -⟩ := draw_eq_some he
  rw [htime, htime']
  exact_mod_cast hij

/-! ### Expiry -/

theorem trace_ideal_filter (is : List RateInput) :
    ((ideal r).trace l is).filter (fun x => x.1.isCall) = (ideal r).trace l (is.filter RateInput.isCall) := by
  induction is generalizing l with
  | nil => rfl
  | cons i is ih =>
    cases i with
    | call => exact congrArg _ ih
    | expire => exact ih

theorem run_ideal_of_no_call {es : List RateInput} (h : ∀ e ∈ es, e.isCall = false) : (ideal r).run l es = l := by
  induction es with
  | nil => rfl
  | cons e es ih =>
    have hnext : (ideal r).next l e = l := by
      cases e with
      | expire => rfl
      | call => cases h _ mem_cons_self
    rw [Mealy.run_cons, hnext]
    exact ih fun e he => h e (mem_cons_of_mem _ he)

/-! ### The retry delay -/

/-- A call that is answered with a decision has drawn its cost. -/
theorem out_ideal_answered (h : (ideal r).out l (.call cost nowMs .answered) = some (.ok decision)) :
    ∃ hcost : 0 < cost ∧ cost ≤ r.limit, decision = decisionAt r l ⟨nowMs, cost, by exact_mod_cast hcost.1⟩ nowMs := by
  by_cases hcost : 0 < cost ∧ cost ≤ r.limit
  · have hdraw := draw_call hcost nowMs (by decide : Fate.answered ≠ .refused)
    simp only [Mealy.out, ideal, hdraw] at h
    exact ⟨hcost, (Except.ok.inj (Option.some.inj h)).symm⟩
  · have hdraw : (RateInput.call cost nowMs .answered).draw r = none :=
      dif_neg fun hall => hcost ⟨hall.1, hall.2.1⟩
    simp only [Mealy.out, ideal, hdraw] at h
    cases h

/-- **A refused call succeeds after its retry delay, and not before.** -/
theorem retry_ideal (delay : ℕ) (h : (ideal r).out l (.call cost nowMs .answered) = some (.ok decision))
    (hrefused : decision.allowed = false) :
    ∃ later, (ideal r).out ((ideal r).next l (.call cost nowMs .answered)) (.call cost (nowMs + delay) .answered) =
        some (.ok later) ∧ (later.allowed = true ↔ decision.retryAfter ≤ delay) := by
  obtain ⟨hcost, rfl⟩ := out_ideal_answered h
  have hburst : (cost : ℚ) ≤ r.bucket.burst := by
    change (cost : ℚ) ≤ (r.limit : ℚ)
    exact_mod_cast hcost.2
  have hshort : ¬ (cost : ℚ) ≤ (l.refill nowMs).tokens := by
    intro hle
    have hallowed := (draw_fst_iff l ⟨nowMs, cost, by exact_mod_cast hcost.1⟩).mpr hle
    exact absurd (hallowed.symm.trans hrefused) (by decide)
  -- nothing is taken, so the next call finds the level that this one has found
  have hnext : (ideal r).next l (.call cost nowMs .answered) = l.refill nowMs := by
    rw [next_ideal_of_draw (draw_call hcost nowMs (by decide))]
    exact congrArg Prod.snd (dif_neg hshort)
  have hdraw := draw_call hcost (nowMs + delay) (by decide : Fate.answered ≠ .refused)
  rw [hnext]
  simp only [Mealy.out, ideal, hdraw]
  refine ⟨_, rfl, ?_⟩
  have hwait := le_refill_iff_wait_le (l.refill nowMs) hburst (not_le.mp hshort) delay
  have hretry : (decisionAt r l ⟨nowMs, cost, by exact_mod_cast hcost.1⟩ nowMs).retryAfter =
      ⌈(l.refill nowMs).wait cost⌉ := if_neg fun hallowed => absurd (hallowed.symm.trans hrefused) (by decide)
  rw [hretry, Int.ceil_le]
  simp only [decisionAt, draw_fst_iff]
  push_cast
  exact hwait

/-- **The token bucket keeps its bound.** In every run with a clock that does not go back, the cost admitted in
an interval is at most a burst and what the interval refills; the tokens stay between none and a burst; every
call is told what a key that never expires tells, which is what the exact bucket `ideal` tells; and a refused call
succeeds from its retry delay on, and not before. -/
theorem rate_limited (r : RateLimit) (is : List RateInput) (hordered : Ordered is) :
    (∀ lo length : ℚ, 0 ≤ length → admitted r is lo (lo + length) ≤ r.limit + length * r.limit / r.windowMs) ∧
    (∀ hash, (limiter r).run none is = some hash → 0 ≤ hash.tokens ∧ hash.tokens ≤ r.limit) ∧
    ((limiter r).trace none is).filter (fun x => x.1.isCall) = (limiter r).trace none (is.filter RateInput.isCall) ∧
    (limiter r).trace none is = (ideal r).trace (r.bucket.full 0) is ∧
    ∀ (as es : List RateInput) (cost : ℤ) (nowMs delay : ℕ) (decision : RateDecision),
      is = as ++ .call cost nowMs .answered :: (es ++ [.call cost (nowMs + delay) .answered]) →
      (∀ e ∈ es, e.isCall = false) →
      (limiter r).out ((limiter r).run none as) (.call cost nowMs .answered) = some (.ok decision) →
      decision.allowed = false →
      ∃ later, (limiter r).out ((limiter r).run none (as ++ .call cost nowMs .answered :: es))
          (.call cost (nowMs + delay) .answered) = some (.ok later) ∧
        (later.allowed = true ↔ decision.retryAfter ≤ delay) := by
  refine ⟨fun lo length hlength => ?_, fun hash hrun => ?_, ?_, trace_limiter hordered, ?_⟩
  · have hspent := TokenBucket.spent_le (r.bucket.full 0) (le_add_of_nonneg_right hlength : lo ≤ lo + length)
      (pairwise_draws (r := r) hordered)
    rw [add_sub_cancel_left] at hspent
    rw [admitted, trace_limiter hordered]
    exact (admitted_le_spent is lo (lo + length)).trans hspent
  · have hrepresents := ((represents_none r 0).run (fun _ _ => Nat.zero_le _) hordered).2
      (is.map RateInput.nowMs).sum (Nat.zero_le _)
      fun i hi => single_le_sum (fun _ _ => Nat.zero_le _) _ (mem_map_of_mem hi)
    rw [hrun] at hrepresents
    rw [hrepresents.1]
    exact ⟨TokenBucket.Level.nonneg _, TokenBucket.Level.le_burst _⟩
  · rw [trace_limiter hordered, trace_limiter (hordered.sublist filter_sublist), trace_ideal_filter]
  · rintro as es cost nowMs delay decision rfl hes hout hrefused
    rw [out_limiter hordered] at hout
    have hsplit : as ++ .call cost nowMs .answered :: (es ++ [.call cost (nowMs + delay) .answered]) =
        (as ++ .call cost nowMs .answered :: es) ++ [.call cost (nowMs + delay) .answered] := by simp
    rw [out_limiter (hsplit ▸ hordered), Mealy.run_append, Mealy.run_cons, run_ideal_of_no_call hes]
    exact retry_ideal delay hout hrefused

end Bucket

/-- Ten calls a second. -/
def sampleLimit : RateLimit where
  key := "rh:\x7bapp\x7d:rate"
  limit := 10
  window := second
  key_valid := by decide
  limit_pos := by decide
  limit_le := by decide
  second_le := by decide
  le_day := by decide

theorem rate_limited_sample :
    Ordered [.call 10 5 .answered, .call 3 5 .answered, .expire 5, .call 3 305 .answered] ∧
      admitted sampleLimit [.call 10 5 .answered, .call 3 5 .answered, .expire 5, .call 3 305 .answered] 5 (5 + 300) ≤
        10 + 300 * 10 / 1000 := by
  have hordered : Ordered [.call 10 5 .answered, .call 3 5 .answered, .expire 5, .call 3 305 .answered] := by
    unfold Ordered
    decide
  have hwindow : (sampleLimit.windowMs : ℚ) = 1000 := by
    rw [show sampleLimit.windowMs = 1000 from by decide]
    norm_num
  have hlimit : (sampleLimit.limit : ℚ) = 10 := by
    rw [show sampleLimit.limit = 10 from rfl]
    norm_num
  have hbound := (rate_limited sampleLimit _ hordered).1 5 300 (by norm_num)
  rw [hwindow, hlimit] at hbound
  exact ⟨hordered, hbound⟩

end RelayHub.State
