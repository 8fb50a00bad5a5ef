import TradingBot.ForMathlib.RelativeError
import TradingBot.Policy.DecimalContext

/-!
# Results of the default context

Every result has 28 significant digits. Where the exact result has no more, it is the exact
result; anywhere it is one factor away from it.
-/

namespace TradingBot

open FixedPoint

/-- A result as the default context returns it. -/
def rounded (x : ℚ) : ℚ := roundSig 10 DecimalArithmetic.precision x

/-- The unit roundoff of the default context. -/
def roundoff : ℚ := 1 / (2 * 10 ^ 27)

/-- The unit of roundoff is positive. -/
theorem roundoff_pos : 0 < roundoff := by norm_num [roundoff]

/-- A result in the default context is one factor away from the exact one. -/
theorem rounded_factor (x : ℚ) : ∃ δ, |δ| ≤ roundoff ∧ rounded x = x * (1 + δ) := by
  have hunit : ((10 : ℕ) : ℚ) ^ (1 - DecimalArithmetic.precision : ℤ) / 2 = roundoff := by
    decide +kernel
  rw [← hunit]
  exact roundSig_factor (by decide) x

/-- One rounding keeps the sign. -/
theorem factor_pos {δ : ℚ} (hδ : |δ| ≤ roundoff) : 0 < 1 + δ := by
  have hsmall : roundoff < 1 := by norm_num [roundoff]
  linarith [neg_le_of_abs_le hδ]

/-- A rounded number is the number after one rounding. -/
theorem rounded_one (x : ℚ) : Rounded roundoff 1 (rounded x) x := by
  obtain ⟨δ, hδ, hx⟩ := rounded_factor x
  rw [hx]
  exact .one roundoff_pos.le (by norm_num [roundoff]) hδ x

/-- One more rounding. -/
theorem rounded_succ {k : ℕ} {x y : ℚ} (hk : ((k : ℚ) + 1) * roundoff < 1)
    (h : Rounded roundoff k x y) : Rounded roundoff (k + 1) (rounded x) y := by
  rw [add_comm k]
  exact (rounded_one x).trans roundoff_pos.le (by rwa [Nat.cast_one, add_comm]) h

/-- Zero needs no rounding. -/
@[simp] theorem rounded_zero : rounded 0 = 0 := roundSig_zero

/-- Rounding keeps the sign. -/
theorem rounded_nonneg {x : ℚ} (hx : 0 ≤ x) : 0 ≤ rounded x := roundSig_nonneg (by decide) hx

/-- A positive number stays positive when it is rounded. -/
theorem rounded_pos {x : ℚ} (hx : 0 < x) : 0 < rounded x := by
  obtain ⟨δ, hδ, hround⟩ := rounded_factor x
  rw [hround]
  exact mul_pos hx (factor_pos hδ)

end TradingBot
