import Mathlib.Algebra.Order.Ring.Nat
import Mathlib.Tactic.Ring

/-! The delay before a retry, as the executor (`fraiseql-observers/src/executor/retry.rs`) and the job queue
(`job_queue/backoff.rs`) compute it. Each is compared with its formula over the natural numbers. The executor's
linear product is the only plain one: it panics in a build with overflow checks and wraps in one without. The job
queue cuts the exponent at 63, which is seen only where the factor in front of the power is 1. -/

namespace FraiseQL.Backoff

open Nat

/-! ### Saturating arithmetic -/

def u64Max : Nat := 2 ^ 64 - 1

def saturate (n : Nat) : UInt64 := .ofNat (min n u64Max)

theorem toNat_saturate (n : Nat) : (saturate n).toNat = min n u64Max :=
  UInt64.toNat_ofNat_of_lt' ((min_le_right _ _).trans_lt (by decide))

theorem toNat_le (x : UInt64) : x.toNat ≤ u64Max := le_of_lt_succ x.toNat_lt

def saturatingMul (a b : UInt64) : UInt64 := saturate (a.toNat * b.toNat)

def saturatingPow (a : UInt64) (exponent : UInt32) : UInt64 := saturate (a.toNat ^ exponent.toNat)

def saturatingAdd (a b : UInt64) : UInt64 := saturate (a.toNat + b.toNat)

def u64Min (a b : UInt64) : UInt64 := if a ≤ b then a else b

def u32Min (a b : UInt32) : UInt32 := if a ≤ b then a else b

def saturatingSub (a b : UInt64) : UInt64 := .ofNat (a.toNat - b.toNat)

theorem toNat_saturatingSub (a b : UInt64) : (saturatingSub a b).toNat = a.toNat - b.toNat :=
  UInt64.toNat_ofNat_of_lt' ((sub_le _ _).trans_lt a.toNat_lt)

/-- A product with a saturated factor, saturated itself and capped, is the exact product capped. -/
theorem min_saturated_mul (i p : Nat) {cap : Nat} (hcap : cap ≤ u64Max) :
    min (min (i * min p u64Max) u64Max) cap = min (i * p) cap := by
  rw [min_assoc, min_eq_right hcap]
  rcases le_total p u64Max with hp | hp
  · rw [min_eq_left hp]
  · rw [min_eq_right hp]
    rcases Nat.eq_zero_or_pos i with rfl | hi
    · rw [Nat.zero_mul, Nat.zero_mul]
    · have hleft : cap ≤ i * u64Max := hcap.trans (Nat.le_mul_of_pos_left _ hi)
      have hright : cap ≤ i * p := hleft.trans (mul_le_mul_left i hp)
      rw [min_eq_right hleft, min_eq_right hright]

/-! ### The two implementations -/

inductive BackoffStrategy where
  | exponential | linear | fixed

structure RetryConfig where
  initialDelayMs : UInt64
  maxDelayMs : UInt64
  backoffStrategy : BackoffStrategy

/-- `a * b`: with overflow checks a product that does not fit panics, without them it wraps. -/
def plainMul (overflowChecks : Bool) (a b : UInt64) : Option UInt64 :=
  if overflowChecks ∧ u64Max < a.toNat * b.toNat then none else some (a * b)

/-- `attempt - 1`, likewise. -/
def plainPred (overflowChecks : Bool) (attempt : UInt32) : Option UInt32 :=
  if overflowChecks ∧ attempt = 0 then none else some (attempt - 1)

/-- `OsRng.gen_range(0..=bound)`, for any number that was drawn. -/
def genRange (draw bound : UInt64) : UInt64 := draw % (bound + 1)

namespace ObserverExecutor

/-- The delay before jitter. -/
def baseDelay (overflowChecks : Bool) (attempt : UInt32) (config : RetryConfig) : Option UInt64 :=
  match config.backoffStrategy with
  | .exponential =>
    (plainPred overflowChecks attempt).map fun exponent =>
      u64Min (saturatingMul config.initialDelayMs (saturatingPow 2 exponent)) config.maxDelayMs
  | .linear =>
    (plainMul overflowChecks config.initialDelayMs (.ofNat attempt.toNat)).map fun delay =>
      u64Min delay config.maxDelayMs
  | .fixed => some config.initialDelayMs

/-- Jitter of a quarter in either direction. -/
def jittered (draw baseDelay : UInt64) : UInt64 :=
  let jitterRange := baseDelay / 4
  if 0 < jitterRange then
    saturatingSub (saturatingAdd baseDelay (genRange draw (saturatingMul jitterRange 2))) jitterRange
  else baseDelay

def calculateBackoff (overflowChecks : Bool) (draw : UInt64) (attempt : UInt32) (config : RetryConfig) :
    Option UInt64 :=
  (baseDelay overflowChecks attempt config).map fun delay =>
    match config.backoffStrategy with
    | .exponential => jittered draw delay
    | .linear | .fixed => delay

end ObserverExecutor

namespace JobQueue

def calculateExponential (overflowChecks : Bool) (attempt : UInt32) (initialDelayMs maxDelayMs : UInt64) :
    Option UInt64 :=
  (plainPred overflowChecks attempt).map fun exponent =>
    u64Min (saturatingMul initialDelayMs (saturatingPow 2 (u32Min exponent 63))) maxDelayMs

def calculateLinear (attempt : UInt32) (initialDelayMs maxDelayMs : UInt64) : UInt64 :=
  u64Min (saturatingMul initialDelayMs (.ofNat attempt.toNat)) maxDelayMs

def calculateBackoff (overflowChecks : Bool) (strategy : BackoffStrategy) (attempt : UInt32)
    (initialDelayMs maxDelayMs : UInt64) : Option UInt64 :=
  match strategy with
  | .exponential => calculateExponential overflowChecks attempt initialDelayMs maxDelayMs
  | .linear => some (calculateLinear attempt initialDelayMs maxDelayMs)
  | .fixed => some initialDelayMs

end JobQueue

/-! ### What they compute -/

variable {checks : Bool} {attempt : UInt32} {config : RetryConfig} {initial max : UInt64}

theorem toNat_u64Min (a b : UInt64) : (u64Min a b).toNat = min a.toNat b.toNat := by
  rw [u64Min, min_def]
  simp only [UInt64.le_iff_toNat_le]
  split_ifs <;> rfl

theorem toNat_u32Min (a b : UInt32) : (u32Min a b).toNat = min a.toNat b.toNat := by
  rw [u32Min, min_def]
  simp only [UInt32.le_iff_toNat_le]
  split_ifs <;> rfl

theorem plainPred_of_pos (h : 1 ≤ attempt) : plainPred checks attempt = some (attempt - 1) := by
  refine if_neg ?_
  rintro ⟨-, rfl⟩
  exact absurd h (by decide)

theorem toNat_pred (h : 1 ≤ attempt) : (attempt - 1).toNat = attempt.toNat - 1 :=
  UInt32.toNat_sub_of_le _ _ h

theorem toNat_ofAttempt (attempt : UInt32) : (UInt64.ofNat attempt.toNat).toNat = attempt.toNat :=
  UInt64.toNat_ofNat_of_lt' (attempt.toNat_lt.trans (by decide))

theorem toNat_power (i : UInt64) (exponent : UInt32) :
    (u64Min (saturatingMul i (saturatingPow 2 exponent)) max).toNat =
      min (i.toNat * 2 ^ exponent.toNat) max.toNat := by
  have htwo : (2 : UInt64).toNat = 2 := rfl
  rw [toNat_u64Min, saturatingMul, toNat_saturate, saturatingPow, toNat_saturate, htwo,
    min_saturated_mul _ _ (toNat_le max)]

theorem baseDelay_exponential (h : 1 ≤ attempt) : ∃ delay,
    ObserverExecutor.baseDelay checks attempt ⟨initial, max, .exponential⟩ = some delay ∧
      delay.toNat = min (initial.toNat * 2 ^ (attempt.toNat - 1)) max.toNat := by
  refine ⟨_, congrArg (Option.map _) (plainPred_of_pos h), ?_⟩
  rw [toNat_power, toNat_pred h]

/-- The product of the linear strategy, as the build computes it. -/
theorem baseDelay_linear : ObserverExecutor.baseDelay checks attempt ⟨initial, max, .linear⟩ =
    if checks ∧ u64Max < initial.toNat * attempt.toNat then none
    else some (u64Min (initial * .ofNat attempt.toNat) max) := by
  show Option.map _ (plainMul _ _ _) = _
  rw [plainMul, toNat_ofAttempt]
  split_ifs <;> rfl

theorem toNat_linear : (u64Min (initial * .ofNat attempt.toNat) max).toNat =
    min (initial.toNat * attempt.toNat % 2 ^ 64) max.toNat := by
  rw [toNat_u64Min, UInt64.toNat_mul, toNat_ofAttempt]

theorem queue_exponential (h : 1 ≤ attempt) : ∃ delay,
    JobQueue.calculateBackoff checks .exponential attempt initial max = some delay ∧
      delay.toNat = min (initial.toNat * 2 ^ min (attempt.toNat - 1) 63) max.toNat := by
  refine ⟨_, congrArg (Option.map _) (plainPred_of_pos h), ?_⟩
  have hcut : (u32Min (attempt - 1) 63).toNat = min (attempt.toNat - 1) 63 := by
    rw [toNat_u32Min, toNat_pred h]
    rfl
  rw [toNat_power, hcut]

theorem queue_linear : (JobQueue.calculateLinear attempt initial max).toNat =
    min (initial.toNat * attempt.toNat) max.toNat := by
  rw [JobQueue.calculateLinear, toNat_u64Min, saturatingMul, toNat_saturate, toNat_ofAttempt, min_assoc,
    min_eq_right (toNat_le max)]

/-- A quarter up or down. -/
def WithinJitter (base delay : Nat) : Prop := 3 * base ≤ 4 * delay ∧ 4 * delay ≤ 5 * base

theorem jittered_within (draw base : UInt64) :
    WithinJitter base.toNat (ObserverExecutor.jittered draw base).toNat := by
  have hquarter : (base / 4).toNat = base.toNat / 4 := UInt64.toNat_div _ _
  have hbase := toNat_le base
  rw [ObserverExecutor.jittered]
  split_ifs with hrange
  · have htwice : (saturatingMul (base / 4) 2).toNat = base.toNat / 4 * 2 := by
      rw [saturatingMul, toNat_saturate, hquarter]
      exact min_eq_left (by change base.toNat / 4 * 2 ≤ _; omega)
    have hdrawn : (genRange draw (saturatingMul (base / 4) 2)).toNat ≤ base.toNat / 4 * 2 := by
      have hnext : (saturatingMul (base / 4) 2 + 1).toNat = base.toNat / 4 * 2 + 1 := by
        rw [UInt64.toNat_add, htwice]
        exact mod_eq_of_lt (by change base.toNat / 4 * 2 + 1 < _; unfold u64Max at hbase; omega)
      rw [genRange, UInt64.toNat_mod, hnext]
      exact le_of_lt_succ (mod_lt _ (succ_pos _))
    rw [WithinJitter, toNat_saturatingSub, saturatingAdd, toNat_saturate, hquarter]
    omega
  · exact ⟨by omega, by omega⟩

/-! ### The formula -/

/-- The delay over the natural numbers. -/
def formula : BackoffStrategy → (initial max : UInt64) → (attempt : UInt32) → Nat
  | .exponential, initial, max, attempt => min (initial.toNat * 2 ^ (attempt.toNat - 1)) max.toNat
  | .linear, initial, max, attempt => min (initial.toNat * attempt.toNat) max.toNat
  | .fixed, initial, _, _ => initial.toNat

/-- Whether the executor's delay may be off by its jitter. -/
def Close : BackoffStrategy → (exact delay : Nat) → Prop
  | .exponential, exact, delay => WithinJitter exact delay
  | .linear, exact, delay | .fixed, exact, delay => delay = exact

/-- A delay that no earlier attempt exceeds. -/
def Dominates (delay : UInt32 → Option UInt64) (attempt : UInt32) : Prop :=
  ∀ earlier, 1 ≤ earlier → earlier ≤ attempt →
    ∃ d d', delay earlier = some d ∧ delay attempt = some d' ∧ d ≤ d'

/-- Both implementations return the delay of the formula, and no earlier attempt waits longer. -/
structure MatchesFormula (checks : Bool) (strategy : BackoffStrategy) (initial max : UInt64)
    (attempt : UInt32) : Prop where
  executor : ∀ draw, ∃ delay,
    ObserverExecutor.calculateBackoff checks draw attempt ⟨initial, max, strategy⟩ = some delay ∧
      Close strategy (formula strategy initial max attempt) delay.toNat
  jobQueue : ∃ delay, JobQueue.calculateBackoff checks strategy attempt initial max = some delay ∧
    delay.toNat = formula strategy initial max attempt
  executorGrows : Dominates (ObserverExecutor.baseDelay checks · ⟨initial, max, strategy⟩) attempt
  jobQueueGrows : Dominates (JobQueue.calculateBackoff checks strategy · initial max) attempt

/-- Exponential: not an initial delay of 1 ms from the 65th attempt on with a maximum above 2⁶³ ms. Linear: the
product fits in 64 bits, or wraps to no less than the maximum. -/
def WithinRange (checks : Bool) : BackoffStrategy → (initial max : UInt64) → (attempt : UInt32) → Prop
  | .exponential, initial, max, attempt => ¬(initial = 1 ∧ 65 ≤ attempt ∧ 2 ^ 63 < max.toNat)
  | .linear, initial, max, attempt =>
    initial.toNat * attempt.toNat < 2 ^ 64 ∨
      checks = false ∧ max.toNat ≤ initial.toNat * attempt.toNat % 2 ^ 64
  | .fixed, _, _, _ => True

theorem dominates_of_monotone {delay : UInt32 → Option UInt64} {f : Nat → Nat} (hf : Monotone f)
    (h : ∀ a, 1 ≤ a → ∃ d, delay a = some d ∧ d.toNat = f a.toNat) (hattempt : 1 ≤ attempt) :
    Dominates delay attempt := by
  intro earlier hearlier hle
  obtain ⟨d, hd, hvalue⟩ := h earlier hearlier
  obtain ⟨d', hd', hvalue'⟩ := h attempt hattempt
  refine ⟨d, d', hd, hd', UInt64.le_iff_toNat_le.mpr ?_⟩
  rw [hvalue, hvalue']
  exact hf (UInt32.le_iff_toNat_le.mp hle)

theorem power_mono (i max : Nat) {g : Nat → Nat} (hg : Monotone g) :
    Monotone fun a => min (i * 2 ^ g a) max :=
  fun _ _ h => min_le_min_right _ (Nat.mul_le_mul_left i (Nat.pow_le_pow_right (by decide) (hg h)))

theorem sub_mono : Monotone fun a : Nat => a - 1 := fun _ _ h => Nat.sub_le_sub_right h 1

/-- Cutting the exponent at 63 shows only where the power stands alone. -/
theorem min_cut_power (i e : Nat) {cap : Nat} (hcap : cap ≤ u64Max) :
    min (i * 2 ^ min e 63) cap = min (i * 2 ^ e) cap ↔ ¬(i = 1 ∧ 64 ≤ e ∧ 2 ^ 63 < cap) := by
  rcases lt_or_ge e 64 with he | he
  · rw [min_eq_left (by omega : e ≤ 63)]
    exact iff_of_true rfl fun h => absurd h.2.1 (by omega)
  · rw [min_eq_right (by omega : 63 ≤ e)]
    have hpow : 2 ^ 64 ≤ 2 ^ e := Nat.pow_le_pow_right (by decide) he
    unfold u64Max at hcap
    rcases Nat.lt_or_ge i 2 with hi | hi
    · obtain rfl | rfl : i = 0 ∨ i = 1 := by omega
      · rw [zero_mul, zero_mul]
        exact iff_of_true rfl fun h => absurd h.1 (by decide)
      · rw [one_mul, one_mul, min_eq_right (by omega : cap ≤ 2 ^ e)]
        simp only [true_and, he, not_lt]
        exact min_eq_right_iff
    · have hleft : cap ≤ i * 2 ^ 63 := by omega
      have hright : cap ≤ i * 2 ^ e :=
        hleft.trans (Nat.mul_le_mul_left i (Nat.pow_le_pow_right (by decide) (by omega)))
      rw [min_eq_right hleft, min_eq_right hright]
      exact iff_of_true rfl fun h => absurd h.1 (by omega)

theorem exponential_iff (h : 1 ≤ attempt) :
    MatchesFormula checks .exponential initial max attempt ↔ WithinRange checks .exponential initial max attempt := by
  obtain ⟨queued, hqueue, hqueued⟩ := @queue_exponential checks attempt initial max h
  have hcut := min_cut_power initial.toNat (attempt.toNat - 1) (toNat_le max)
  have hone : initial.toNat = 1 ↔ initial = 1 := UInt64.toNat_inj (b := 1)
  have hlate : 64 ≤ attempt.toNat - 1 ↔ 65 ≤ attempt := by
    rw [UInt32.le_iff_toNat_le]
    change _ ↔ 65 ≤ _
    omega
  rw [hone, hlate] at hcut
  constructor
  · intro hmatch
    obtain ⟨delay, hdelay, hvalue⟩ := hmatch.jobQueue
    rw [hqueue] at hdelay
    cases hdelay
    exact hcut.mp (hqueued.symm.trans hvalue)
  · intro hrange
    refine ⟨fun draw => ?_, ⟨queued, hqueue, hqueued.trans (hcut.mpr hrange)⟩, ?_, ?_⟩
    · obtain ⟨base, hbase, hvalue⟩ := @baseDelay_exponential checks attempt initial max h
      refine ⟨ObserverExecutor.jittered draw base, ?_, ?_⟩
      · rw [ObserverExecutor.calculateBackoff, hbase]
        rfl
      · rw [formula, ← hvalue]
        exact jittered_within draw base
    · exact dominates_of_monotone (power_mono _ _ sub_mono) (fun _ ha => baseDelay_exponential ha) h
    · exact dominates_of_monotone (power_mono _ _ fun _ _ hle => min_le_min_right 63 (sub_mono hle))
        (fun _ ha => queue_exponential ha) h

theorem linear_iff (h : 1 ≤ attempt) :
    MatchesFormula checks .linear initial max attempt ↔ WithinRange checks .linear initial max attempt := by
  have hmul : ∀ {a : UInt32}, a ≤ attempt → initial.toNat * a.toNat ≤ initial.toNat * attempt.toNat :=
    fun hle => mul_le_mul_left _ (UInt32.le_iff_toNat_le.mp hle)
  have hmax := toNat_le max
  unfold u64Max at hmax
  constructor
  · intro hmatch
    obtain ⟨delay, hdelay, hvalue⟩ := hmatch.executor 0
    rw [ObserverExecutor.calculateBackoff, baseDelay_linear] at hdelay
    split_ifs at hdelay with hover
    · cases hdelay
    obtain rfl := Option.some.inj hdelay
    rw [Close, toNat_linear, formula] at hvalue
    rw [WithinRange]
    by_cases hfits : initial.toNat * attempt.toNat < 2 ^ 64
    · exact .inl hfits
    · right
      refine ⟨?_, by omega⟩
      by_contra hchecks
      refine hover ⟨by simpa using hchecks, ?_⟩
      unfold u64Max
      omega
  · intro hrange
    have hnone : ∀ {a : UInt32}, a ≤ attempt → ¬(checks = true ∧ u64Max < initial.toNat * a.toNat) := by
      rintro a hle ⟨hchecks, hover⟩
      have hle' := hmul hle
      unfold u64Max at hover
      rcases hrange with hfits | ⟨hwraps, -⟩
      · omega
      · rw [hwraps] at hchecks
        cases hchecks
    have hbase : ∀ {a : UInt32}, a ≤ attempt → ObserverExecutor.baseDelay checks a ⟨initial, max, .linear⟩ =
        some (u64Min (initial * .ofNat a.toNat) max) := fun hle => by
      rw [baseDelay_linear, if_neg (hnone hle)]
    have hexact : min (initial.toNat * attempt.toNat % 2 ^ 64) max.toNat =
        min (initial.toNat * attempt.toNat) max.toNat := by
      rcases hrange with hfits | ⟨-, hwrapped⟩
      · rw [mod_eq_of_lt hfits]
      · rw [min_eq_right hwrapped, min_eq_right (hwrapped.trans (mod_le _ _))]
    refine ⟨fun draw => ⟨_, congrArg _ (hbase UInt32.le_rfl), toNat_linear.trans hexact⟩, ⟨_, rfl, queue_linear⟩, ?_, ?_⟩
    · intro earlier _ hle
      refine ⟨_, _, hbase hle, hbase UInt32.le_rfl, UInt64.le_iff_toNat_le.mpr ?_⟩
      rw [toNat_linear, toNat_linear, hexact]
      -- The earlier product may itself have wrapped, which only makes it smaller.
      exact min_le_min_right _ ((mod_le _ _).trans (hmul hle))
    · exact dominates_of_monotone (f := fun a => min (initial.toNat * a) max.toNat)
        (fun _ _ hle => min_le_min_right _ (mul_le_mul_left _ hle)) (fun _ _ => ⟨_, rfl, queue_linear⟩) h

/-- The delays of both implementations are those of the formula exactly within the range of their arithmetic. -/
theorem backoff_iff (checks : Bool) (strategy : BackoffStrategy) (initial max : UInt64) (attempt : UInt32)
    (h : 1 ≤ attempt) :
    MatchesFormula checks strategy initial max attempt ↔ WithinRange checks strategy initial max attempt := by
  cases strategy with
  | exponential => exact exponential_iff h
  | linear => exact linear_iff h
  | fixed =>
    have hsame : ∀ delay : UInt32 → Option UInt64, (∀ a, delay a = some initial) → Dominates delay attempt :=
      fun _ hdelay earlier _ _ => ⟨initial, initial, hdelay earlier, hdelay attempt, UInt64.le_rfl⟩
    exact iff_of_true ⟨fun _ => ⟨initial, rfl, rfl⟩, ⟨initial, rfl, rfl⟩, hsame _ fun _ => rfl, hsame _ fun _ => rfl⟩
      trivial

theorem backoff_iff_default : MatchesFormula true .exponential 100 30000 3 :=
  (backoff_iff true .exponential 100 30000 3 (by decide)).mpr fun h => absurd h.1 (by decide)

/-- Twice 2⁶³ ms is a delay of 0 ms or a panic, and the job queue's 65th wait of 1 ms doubled is 2⁶³ ms. -/
theorem backoff_wraps : ¬MatchesFormula false .linear 9223372036854775808 30000 2 ∧
    ¬MatchesFormula true .linear 9223372036854775808 30000 2 ∧
    ¬MatchesFormula false .exponential 1 18446744073709551615 65 := by
  refine ⟨fun h => ?_, fun h => ?_, fun h => ?_⟩
  · rcases (linear_iff (by decide)).mp h with hfits | ⟨-, hwrapped⟩
    · exact absurd hfits (by decide)
    · exact absurd hwrapped (by decide)
  · rcases (linear_iff (by decide)).mp h with hfits | ⟨hchecks, -⟩
    · exact absurd hfits (by decide)
    · cases hchecks
  · exact absurd ⟨rfl, by decide, by decide⟩ ((exponential_iff (by decide)).mp h)

end FraiseQL.Backoff
