import Mathlib.Algebra.Order.Ring.Nat

/-!
Natural numbers rounded to a number of binary digits: to the nearest multiple of a power of two, and to the even one
of two that are as near. Rounding keeps the order, and what has digits enough is left as it is.
-/

namespace BinaryRounding

open Nat

/-- How many times `2 ^ k` goes into `n`, rounded to the nearest, from the middle to the even number. -/
def nearest (n k : Nat) : Nat :=
  if 2 * (n % 2 ^ k) < 2 ^ k ∨ (2 * (n % 2 ^ k) = 2 ^ k ∧ n / 2 ^ k % 2 = 0) then n / 2 ^ k else n / 2 ^ k + 1

/-- How many binary digits of `n` are over `p`. -/
def excess (p n : Nat) : Nat := n.log2 + 1 - p

/-- `n` rounded to `p` binary digits. -/
def round (p n : Nat) : Nat := nearest n (excess p n) * 2 ^ excess p n

/-- An integer rounded by its absolute value. -/
def roundInt (p : Nat) (n : Int) : Int := n.sign * round p n.natAbs

theorem div_le_nearest (n k : Nat) : n / 2 ^ k ≤ nearest n k := by
  rw [nearest]
  split
  · exact le_refl _
  · exact le_succ _

theorem nearest_le (n k : Nat) : nearest n k ≤ n / 2 ^ k + 1 := by
  rw [nearest]
  split
  · exact le_succ _
  · exact le_refl _

variable {m n : Nat}

theorem nearest_mono (h : m ≤ n) (k : Nat) : nearest m k ≤ nearest n k := by
  have hdiv : m / 2 ^ k ≤ n / 2 ^ k := Nat.div_le_div_right h
  rcases Nat.lt_or_eq_of_le hdiv with hlt | heq
  · calc nearest m k
      _ ≤ m / 2 ^ k + 1 := nearest_le m k
      _ ≤ n / 2 ^ k := hlt
      _ ≤ nearest n k := div_le_nearest n k
  · have hm := div_add_mod m (2 ^ k)
    have hn := div_add_mod n (2 ^ k)
    rw [heq] at hm
    have hmod : m % 2 ^ k ≤ n % 2 ^ k := by omega
    rw [nearest, nearest, heq]
    split_ifs with hdown hdown'
    · exact le_refl _
    · exact le_succ _
    · exfalso
      omega
    · exact le_refl _

theorem nearest_zero (n : Nat) : nearest n 0 = n := by
  rw [nearest, Nat.pow_zero, Nat.mod_one, Nat.div_one]
  exact if_pos (.inl (by omega))

theorem zero_nearest (k : Nat) : nearest 0 k = 0 := by
  rw [nearest, Nat.zero_mod, Nat.zero_div]
  exact if_pos (.inl (Nat.two_pow_pos k))

theorem round_zero (p : Nat) : round p 0 = 0 := by
  rw [round, zero_nearest, zero_mul]

variable {p : Nat}

/-- A number with digits enough is left as it is. -/
theorem round_of_lt (h : n < 2 ^ p) : round p n = n := by
  by_cases hn : n = 0
  · rw [hn, round_zero]
  · have hlog := (log2_lt hn).mpr h
    have hexcess : excess p n = 0 := by
      rw [excess]
      omega
    rw [round, hexcess, nearest_zero, pow_zero, mul_one]

/-- What is kept has no more digits than asked for, but for a carry to the next power of two. -/
theorem nearest_excess_le (hp : p ≤ n.log2) : nearest n (excess p n) ≤ 2 ^ p := by
  have hdigits : n.log2 + 1 = p + excess p n := by
    rw [excess]
    omega
  have hlt : n < 2 ^ excess p n * 2 ^ p := by
    rw [← pow_add, add_comm, ← hdigits]
    exact Nat.lt_log2_self
  have hdiv : n / 2 ^ excess p n < 2 ^ p := Nat.div_lt_of_lt_mul hlt
  exact (nearest_le n _).trans hdiv

/-- Rounding stays below the next power of two. -/
theorem round_le (p n : Nat) : round p n ≤ 2 ^ (n.log2 + 1) := by
  by_cases hp : p ≤ n.log2
  · have hdigits : p + excess p n = n.log2 + 1 := by
      rw [excess]
      omega
    calc round p n
      _ ≤ 2 ^ p * 2 ^ excess p n := mul_le_mul_right _ (nearest_excess_le hp)
      _ = 2 ^ (n.log2 + 1) := by rw [← pow_add, hdigits]
  · have hlt : n < 2 ^ (n.log2 + 1) := Nat.lt_log2_self
    have hsmall : n < 2 ^ p := hlt.trans_le (Nat.pow_le_pow_right (by decide) (by omega))
    rw [round_of_lt hsmall]
    exact hlt.le

/-- Rounding stays above the power of two below. -/
theorem le_round (hp : 0 < p) (hn : n ≠ 0) : 2 ^ n.log2 ≤ round p n := by
  have hexcess : excess p n ≤ n.log2 := by
    rw [excess]
    omega
  have hsplit : 2 ^ n.log2 = 2 ^ (n.log2 - excess p n) * 2 ^ excess p n := by
    rw [← Nat.pow_add, Nat.sub_add_cancel hexcess]
  have hdiv : 2 ^ (n.log2 - excess p n) ≤ n / 2 ^ excess p n := by
    rw [Nat.le_div_iff_mul_le (Nat.two_pow_pos _), ← hsplit]
    exact log2_self_le hn
  rw [hsplit]
  exact mul_le_mul_right _ (hdiv.trans (div_le_nearest n _))

theorem log2_mono (h : m ≤ n) : m.log2 ≤ n.log2 := by
  by_cases hm : m = 0
  · rw [hm, log2_zero]
    exact zero_le _
  · have hn : n ≠ 0 := by omega
    exact (le_log2 hn).mpr ((log2_self_le hm).trans h)

/-- Rounding keeps the order: among numbers of as many digits by the quotient, otherwise over the power between. -/
theorem round_mono (hp : 0 < p) (h : m ≤ n) : round p m ≤ round p n := by
  by_cases hn : n = 0
  · have hm : m = 0 := by omega
    rw [hm, hn]
  · rcases lt_or_eq_of_le (log2_mono h) with hlt | heq
    · calc round p m
        _ ≤ 2 ^ (m.log2 + 1) := round_le p m
        _ ≤ 2 ^ n.log2 := Nat.pow_le_pow_right (by decide) hlt
        _ ≤ round p n := le_round hp hn
    · have hexcess : excess p m = excess p n := by rw [excess, excess, heq]
      rw [round, round, hexcess]
      exact mul_le_mul_right _ (nearest_mono h _)

/-- What is rounded has as few digits as asked for, before zeros. -/
theorem round_digits (hp : 0 < p) (n : Nat) : ∃ m k, m < 2 ^ p ∧ k ≤ n.log2 + 1 ∧ round p n = m * 2 ^ k := by
  by_cases hlog : p ≤ n.log2
  · rcases lt_or_eq_of_le (nearest_excess_le hlog) with hlt | hcarry
    · exact ⟨_, _, hlt, sub_le _ _, rfl⟩
    · refine ⟨2 ^ (p - 1), excess p n + 1, ?_, ?_, ?_⟩
      · exact Nat.pow_lt_pow_right (by decide) (by omega)
      · rw [excess]
        omega
      · have hsum : p - 1 + (excess p n + 1) = p + excess p n := by omega
        rw [round, hcarry, ← Nat.pow_add, ← Nat.pow_add, hsum]
  · have hsmall : n < 2 ^ p := Nat.lt_of_lt_of_le Nat.lt_log2_self (Nat.pow_le_pow_right (by decide) (by omega))
    refine ⟨n, 0, hsmall, Nat.zero_le _, ?_⟩
    rw [round_of_lt hsmall, Nat.pow_zero, Nat.mul_one]

theorem roundInt_nat (p n : Nat) : roundInt p n = round p n := by
  cases n with
  | zero =>
    rw [round_zero]
    exact Int.zero_mul _
  | succ n => exact Int.one_mul _

theorem roundInt_neg (p n : Nat) : roundInt p (-n) = -round p n := by
  cases n with
  | zero =>
    rw [round_zero]
    exact Int.zero_mul _
  | succ n => exact Int.neg_one_mul _

theorem roundInt_digits (hp : 0 < p) (n : Int) :
    ∃ (m : Int) (k : Nat), m.natAbs < 2 ^ p ∧ k ≤ n.natAbs.log2 + 1 ∧ roundInt p n = m * 2 ^ k := by
  obtain ⟨m, k, hm, hk, hround⟩ := round_digits hp n.natAbs
  obtain ⟨a, rfl | rfl⟩ := n.eq_nat_or_neg
  · rw [Int.natAbs_natCast] at hround
    refine ⟨m, k, hm, hk, ?_⟩
    rw [roundInt_nat, hround]
    exact Int.natCast_mul m (2 ^ k)
  · rw [Int.natAbs_neg, Int.natAbs_natCast] at hround
    refine ⟨-m, k, ?_, hk, ?_⟩
    · rwa [Int.natAbs_neg]
    · rw [roundInt_neg, hround, Int.neg_mul]
      exact congrArg Neg.neg (Int.natCast_mul m (2 ^ k))

theorem roundInt_mono (hp : 0 < p) {m n : Int} (h : m ≤ n) : roundInt p m ≤ roundInt p n := by
  obtain ⟨a, rfl | rfl⟩ := m.eq_nat_or_neg
  · obtain ⟨b, rfl | rfl⟩ := n.eq_nat_or_neg
    · have hround := round_mono hp (Int.ofNat_le.mp h)
      rw [roundInt_nat, roundInt_nat]
      exact Int.ofNat_le.mpr hround
    · obtain rfl : a = 0 := by omega
      obtain rfl : b = 0 := by omega
      exact Int.le_refl _
  · obtain ⟨b, rfl | rfl⟩ := n.eq_nat_or_neg
    · rw [roundInt_nat, roundInt_neg]
      omega
    · have hround := round_mono hp (m := b) (n := a) (by omega)
      rw [roundInt_neg, roundInt_neg]
      omega

end BinaryRounding
