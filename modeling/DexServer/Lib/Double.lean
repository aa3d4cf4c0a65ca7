import Mathlib.Algebra.Order.Floor.Ring
import Mathlib.Data.Int.Log
import Mathlib.Data.Rat.Floor
import Mathlib.Tactic.NormNum

/-!
# Binary floating point (IEEE 754 binary64)

`double x` is the number nearest to `x` with a significand of 53 bits, ties to even. The exponent is
not bounded here.

* `double_intCast`: integers up to `2 ^ 53` are exact.
* `double_intCast_of_le`: beyond, a rounded integer is even.
* `ceil_double_div`: a quotient that is rounded stays between the same integers, for small
  numerators.
-/

namespace Lib

/-- To the nearest integer, ties to even. -/
def nearestInt (x : ℚ) : ℤ :=
  if x - ⌊x⌋ < 1 / 2 ∨ x - ⌊x⌋ = 1 / 2 ∧ ⌊x⌋ % 2 = 0 then ⌊x⌋ else ⌊x⌋ + 1

/-- The distance between the numbers of 53 bits at `x`. -/
def unitAt (x : ℚ) : ℚ := 2 ^ (Int.log 2 |x| - 52)

def double (x : ℚ) : ℚ := nearestInt (x / unitAt x) * unitAt x

example : double (2 ^ 53 + 3) = 2 ^ 53 + 4 := by decide +kernel

example : double (1 / 3) = 6004799503160661 / 2 ^ 54 := by decide +kernel

theorem nearestInt_intCast (n : ℤ) : nearestInt n = n := by
  simp [nearestInt]

theorem nearestInt_bounds (x : ℚ) : ⌊x⌋ ≤ nearestInt x ∧ nearestInt x ≤ ⌈x⌉ := by
  unfold nearestInt
  split
  · exact ⟨le_rfl, Int.floor_le_ceil x⟩
  case isFalse h =>
    refine ⟨by omega, ?_⟩
    -- `x` is not an integer
    have hx : (⌊x⌋ : ℚ) ≠ x := by
      intro hx
      rw [hx] at h
      norm_num at h
    have hlt : (⌊x⌋ : ℚ) < x := lt_of_le_of_ne (Int.floor_le x) hx
    exact Int.lt_ceil.2 hlt

theorem le_nearestInt {n : ℤ} {x : ℚ} (h : n ≤ x) : n ≤ nearestInt x :=
  (Int.le_floor.2 h).trans (nearestInt_bounds x).1

theorem nearestInt_le {n : ℤ} {x : ℚ} (h : x ≤ n) : nearestInt x ≤ n :=
  (nearestInt_bounds x).2.trans (Int.ceil_le.2 h)

theorem unitAt_pos (x : ℚ) : 0 < unitAt x := zpow_pos (by norm_num) _

theorem two_pow_mul_unitAt {x : ℚ} (hx : 0 < x) : 2 ^ 52 * unitAt x = 2 ^ Int.log 2 x := by
  rw [unitAt, abs_of_pos hx, ← zpow_natCast, ← zpow_add₀ (by norm_num)]
  congr 1
  push_cast
  ring

theorem two_zpow_log_le {x : ℚ} (hx : 0 < x) : 2 ^ Int.log 2 x ≤ x := by
  exact_mod_cast Int.zpow_log_le_self (b := 2) (by decide) hx

theorem double_spec {x : ℚ} (hx : 0 < x) :
    2 ^ Int.log 2 x ≤ double x ∧ double x ≤ 2 ^ (Int.log 2 x + 1) := by
  have hu := unitAt_pos x
  have hhigh : 2 * 2 ^ 52 * unitAt x = 2 ^ (Int.log 2 x + 1) := by
    rw [mul_assoc, two_pow_mul_unitAt hx, zpow_add_one₀ (by norm_num), mul_comm]
  have hle : (2 ^ 52 : ℤ) ≤ nearestInt (x / unitAt x) := by
    apply le_nearestInt
    rw [le_div_iff₀ hu, Int.cast_pow, Int.cast_ofNat, two_pow_mul_unitAt hx]
    exact two_zpow_log_le hx
  have hge : nearestInt (x / unitAt x) ≤ (2 * 2 ^ 52 : ℤ) := by
    apply nearestInt_le
    rw [div_le_iff₀ hu, Int.cast_mul, Int.cast_pow, Int.cast_ofNat, hhigh]
    exact_mod_cast (Int.lt_zpow_succ_log_self (b := 2) (by decide) x).le
  rw [← two_pow_mul_unitAt hx, ← hhigh, double]
  constructor
  · exact mul_le_mul_of_nonneg_right (by exact_mod_cast hle) hu.le
  · exact mul_le_mul_of_nonneg_right (by exact_mod_cast hge) hu.le

theorem double_pos {x : ℚ} (hx : 0 < x) : 0 < double x :=
  lt_of_lt_of_le (zpow_pos (by norm_num) _) (double_spec hx).1

theorem double_of_multiple {x : ℚ} {n : ℤ} (h : x = n * unitAt x) : double x = x := by
  have hdiv : x / unitAt x = n := by
    rw [div_eq_iff (unitAt_pos x).ne']
    exact h
  rw [double, hdiv, nearestInt_intCast, ← h]

theorem unitAt_intCast (n : ℤ) : unitAt n = 2 ^ ((Nat.log 2 n.natAbs : ℤ) - 52) := by
  rw [unitAt, ← Int.cast_abs, Int.abs_eq_natAbs, Int.cast_natCast, Int.log_natCast]

theorem unitAt_of_le {n : ℤ} (h : 2 ^ 53 ≤ n.natAbs) : ∃ k : ℕ, unitAt n = 2 * 2 ^ k := by
  have hlog : 53 ≤ Nat.log 2 n.natAbs := Nat.le_log_of_pow_le (by decide) h
  refine ⟨Nat.log 2 n.natAbs - 53, ?_⟩
  rw [unitAt_intCast, ← zpow_natCast, ← zpow_one_add₀ (by norm_num)]
  congr 1
  omega

theorem double_intCast {n : ℤ} (h : n.natAbs ≤ 2 ^ 53) : double n = n := by
  rcases h.lt_or_eq with hlt | heq
  · have hlog : Nat.log 2 n.natAbs ≤ 52 := by
      have := Nat.log_lt_of_lt_pow' (b := 2) (x := 53) (by decide) hlt
      omega
    apply double_of_multiple (n := n * 2 ^ (52 - Nat.log 2 n.natAbs))
    rw [unitAt_intCast, Int.cast_mul, mul_assoc]
    push_cast
    rw [← zpow_natCast, ← zpow_add₀ (by norm_num)]
    have hexp : ((52 - Nat.log 2 n.natAbs : ℕ) : ℤ) + ((Nat.log 2 n.natAbs : ℤ) - 52) = 0 := by
      omega
    rw [hexp, zpow_zero, mul_one]
  · have hlog : Nat.log 2 n.natAbs = 53 := by
      rw [heq, Nat.log_pow (by decide)]
    have hunit : unitAt n = 2 := by
      rw [unitAt_intCast, hlog]
      norm_num
    rcases Int.natAbs_eq n with hn | hn
    · apply double_of_multiple (n := 2 ^ 52)
      rw [hunit, hn, heq]
      norm_num
    · apply double_of_multiple (n := -2 ^ 52)
      rw [hunit, hn, heq]
      norm_num

/-- Beyond, a rounded integer is a multiple of 2 that is not smaller than `2 ^ 53`. -/
theorem double_intCast_of_le {n : ℤ} (h : 2 ^ 53 ≤ n.natAbs) : ∃ m : ℤ, double n = 2 * m := by
  obtain ⟨k, hk⟩ := unitAt_of_le h
  refine ⟨nearestInt (n / unitAt n) * 2 ^ k, ?_⟩
  rw [double]
  nth_rewrite 2 [hk]
  push_cast
  ring

theorem double_two_mul (n : ℤ) : ∃ m : ℤ, double (2 * n) = 2 * m := by
  have hcast : (2 * n : ℚ) = ((2 * n : ℤ) : ℚ) := by push_cast; rfl
  rw [hcast]
  rcases Nat.le_total (2 * n).natAbs (2 ^ 53) with hle | hge
  · exact ⟨n, by rw [double_intCast hle, hcast]⟩
  · exact double_intCast_of_le hge

theorem le_double {n : ℤ} (h : 2 ^ 53 ≤ n) : 2 ^ 53 ≤ double n := by
  have hn : (0 : ℚ) < n := by exact_mod_cast (show 0 < n by omega)
  have hlog : 53 ≤ Int.log 2 (n : ℚ) := by
    apply (Int.zpow_le_iff_le_log (b := 2) (by decide) hn).1
    exact_mod_cast h
  calc (2 : ℚ) ^ 53 = 2 ^ (53 : ℤ) := by norm_num
    _ ≤ 2 ^ Int.log 2 (n : ℚ) := zpow_le_zpow_right₀ (by norm_num) hlog
    _ ≤ double n := (double_spec hn).1

theorem double_le_one {x : ℚ} (hx : 0 < x) (h : x ≤ 1) : double x ≤ 1 := by
  rcases h.lt_or_eq with hlt | heq
  · have hlog : Int.log 2 x < 0 := by
      apply (Int.lt_zpow_iff_log_lt (b := 2) (by decide) hx).1
      simpa using hlt
    calc double x ≤ 2 ^ (Int.log 2 x + 1) := (double_spec hx).2
      _ ≤ 2 ^ (0 : ℤ) := zpow_le_zpow_right₀ (by norm_num) (by omega)
      _ = 1 := zpow_zero 2
  · rw [heq]
    have hone := double_intCast (n := 1) (by decide)
    simpa using hone.le

/-- The quotient of a number up to 12, rounded up: rounding to 53 bits first makes no difference. -/
theorem ceil_double_div {m : ℤ} {x : ℚ} (hm : 1 ≤ m ∧ m ≤ 12) (hx : 0 < x)
    (hint : m ≤ x ∨ ∃ d : ℤ, x = d) : ⌈double (m / x)⌉ = ⌈m / x⌉ := by
  have hm0 : (0 : ℚ) < m := by exact_mod_cast (show 0 < m by omega)
  have hpos : 0 < m / x := div_pos hm0 hx
  by_cases hle : m ≤ x
  · -- both are 1
    have hone : m / x ≤ 1 := (div_le_one hx).2 hle
    have hceil : ∀ y : ℚ, 0 < y → y ≤ 1 → ⌈y⌉ = 1 := by
      intro y hy hy1
      rw [Int.ceil_eq_iff]
      simp [hy, hy1]
    rw [hceil _ (double_pos hpos) (double_le_one hpos hone), hceil _ hpos hone]
  · obtain ⟨d, rfl⟩ := hint.resolve_left hle
    have hd : 0 < d := by exact_mod_cast hx
    have hdm : d < m := by
      have := not_le.1 hle
      exact_mod_cast this
    have hall : ∀ m ∈ List.range 13, ∀ d ∈ List.range m,
        ⌈double ((m : ℤ) / (d : ℤ) : ℚ)⌉ = ⌈((m : ℤ) / (d : ℤ) : ℚ)⌉ := by decide +kernel
    have h := hall m.toNat (List.mem_range.2 (by omega)) d.toNat (List.mem_range.2 (by omega))
    rwa [Int.toNat_of_nonneg (by omega), Int.toNat_of_nonneg (by omega)] at h

end Lib
