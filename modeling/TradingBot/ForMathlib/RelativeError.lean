import TradingBot.ForMathlib.SignificantDigits
import Mathlib.Tactic.FieldSimp
import Mathlib.Tactic.Linarith
import Mathlib.Tactic.Positivity
import Mathlib.Tactic.Ring

/-!
# Relative errors of a few roundings

The standard model of floating-point arithmetic: every operation returns the exact result times
`1 + δ`, with `δ` at most the unit roundoff `u`. After `k` such factors the result is exact up to
`k u / (1 - k u)`, whichever of them are above a fraction bar.

## Key results

- `Rounded.trans`, `Rounded.div`, `Rounded.add`: how roundings add up
- `Rounded.abs_sub_le`: the error they leave
- `roundSig_factor`: rounding to significant digits is one factor
-/

namespace FixedPoint

variable {K : Type*} [Field K] [LinearOrder K] [IsStrictOrderedRing K]

/-- The relative error after `k` roundings. -/
def errorAfter (u : K) (k : ℕ) : K := k * u / (1 - k * u)

/-- A number is another one after at most `k` roundings. -/
def Rounded (u : K) (k : ℕ) (x y : K) : Prop := ∃ θ, |θ| ≤ errorAfter u k ∧ x = y * (1 + θ)

variable {u x y z w : K} {j k : ℕ}

/-! ## How the errors add up -/

/-- The error after a number of roundings and some more. -/
theorem errorAfter_add (hu : 0 ≤ u) (hjk : (j + k) * u < 1) :
    errorAfter u j + errorAfter u k + errorAfter u j * errorAfter u k ≤ errorAfter u (j + k) := by
  have hj : 0 ≤ j * u := by positivity
  have hk : 0 ≤ k * u := by positivity
  rw [errorAfter, errorAfter, errorAfter, Nat.cast_add, add_mul]
  rw [add_mul] at hjk
  generalize (j : K) * u = a at hj hjk ⊢
  generalize (k : K) * u = b at hk hjk ⊢
  have hab : 0 ≤ a * b := mul_nonneg hj hk
  have ha : 1 - a ≠ 0 := by linarith
  have hb : 1 - b ≠ 0 := by linarith
  -- with the two products as variables, the sum is one fraction over (1 - a)(1 - b)
  have hsum : a / (1 - a) + b / (1 - b) + a / (1 - a) * (b / (1 - b)) =
      (a + b - a * b) / (1 - (a + b) + a * b) := by
    have hden : 1 - (a + b) + a * b = (1 - a) * (1 - b) := by ring
    rw [hden]
    field_simp
    ring
  rw [hsum]
  -- the other denominator is smaller by the product of the two
  exact div_le_div₀ (by linarith) (by linarith) (by linarith) (by linarith)

/-- More roundings have a larger bound. -/
theorem errorAfter_mono (hu : 0 ≤ u) (hjk : j ≤ k) (hk : k * u < 1) :
    errorAfter u j ≤ errorAfter u k := by
  have hle : j * u ≤ k * u := mul_le_mul_of_nonneg_right (by exact_mod_cast hjk) hu
  have hj : 0 ≤ j * u := by positivity
  exact div_le_div₀ (hj.trans hle) hle (by linarith) (by linarith)

/-- The error of a quotient by a number that was rounded once. -/
theorem errorAfter_succ (hu : 0 ≤ u) (hk : (k + 1) * u < 1) :
    (errorAfter u k + u) / (1 - u) ≤ errorAfter u (k + 1) := by
  have hku : 0 ≤ k * u := by positivity
  rw [errorAfter, errorAfter, Nat.cast_add, Nat.cast_one, add_mul, one_mul]
  rw [add_mul, one_mul] at hk
  generalize (k : K) * u = a at hku hk ⊢
  have hau : 0 ≤ a * u := mul_nonneg hku hu
  have ha : 1 - a ≠ 0 := by linarith
  have hb : 1 - u ≠ 0 := by linarith
  have hleft : (a / (1 - a) + u) / (1 - u) = (a + u - a * u) / (1 - (a + u) + a * u) := by
    have hden : 1 - (a + u) + a * u = (1 - a) * (1 - u) := by ring
    rw [hden]
    field_simp
    ring
  rw [hleft]
  exact div_le_div₀ (by linarith) (by linarith) (by linarith) (by linarith)

/-! ## Roundings -/

/-- A small relative error is one factor. -/
theorem exists_factor (hu : 0 ≤ u) (h : |x - y| ≤ |y| * u) : ∃ δ, |δ| ≤ u ∧ x = y * (1 + δ) := by
  by_cases hy : y = 0
  · refine ⟨0, by simpa using hu, ?_⟩
    rw [hy, abs_zero, zero_mul, sub_zero] at h
    rw [hy, zero_mul, abs_nonpos_iff.mp h]
  · refine ⟨(x - y) / y, ?_, ?_⟩
    · rwa [abs_div, div_le_iff₀ (abs_pos.mpr hy), mul_comm]
    · rw [mul_add, mul_one, mul_div_cancel₀ _ hy, add_sub_cancel]

namespace Rounded

/-- An exact number is within any number of roundings. -/
theorem self (hu : 0 ≤ u) (hk : k * u < 1) (x : K) : Rounded u k x x := by
  refine ⟨0, ?_, by ring⟩
  rw [abs_zero, errorAfter]
  exact div_nonneg (by positivity) (by linarith)

/-- One rounding. -/
theorem one (hu : 0 ≤ u) (hu1 : u < 1) {δ : K} (hδ : |δ| ≤ u) (y : K) :
    Rounded u 1 (y * (1 + δ)) y := by
  refine ⟨δ, hδ.trans ?_, rfl⟩
  rw [errorAfter, Nat.cast_one, one_mul, le_div_iff₀ (by linarith), mul_sub, mul_one]
  exact sub_le_self _ (mul_nonneg hu hu)

/-- Roundings of a rounded number add up. -/
theorem trans (hu : 0 ≤ u) (hjk : (j + k) * u < 1) (hx : Rounded u j x y)
    (hy : Rounded u k y z) : Rounded u (j + k) x z := by
  obtain ⟨θ, hθ, rfl⟩ := hx
  obtain ⟨η, hη, rfl⟩ := hy
  refine ⟨θ + η + θ * η, ?_, by ring⟩
  calc |θ + η + θ * η| ≤ |θ| + |η| + |θ| * |η| := by
        rw [← abs_mul]
        exact (abs_add_le _ _).trans (by gcongr; exact abs_add_le _ _)
    _ ≤ errorAfter u j + errorAfter u k + errorAfter u j * errorAfter u k := by
        gcongr
        exact (abs_nonneg _).trans hθ
    _ ≤ errorAfter u (j + k) := errorAfter_add hu hjk

/-- A quotient by a number that was rounded once. -/
theorem div (hu : 0 ≤ u) (hk : (k + 1) * u < 1) (hx : Rounded u k x y) {δ : K}
    (hδ : |δ| ≤ u) : Rounded u (k + 1) (x / (w * (1 + δ))) (y / w) := by
  obtain ⟨θ, hθ, rfl⟩ := hx
  have hu1 : u < 1 := by
    have hku : 0 ≤ k * u := by positivity
    linarith [add_mul (k : K) 1 u]
  have hden : 1 - u ≤ 1 + δ := by linarith [neg_le_of_abs_le hδ]
  have hpos : 0 < 1 + δ := by linarith
  refine ⟨(θ - δ) / (1 + δ), ?_, ?_⟩
  -- the new factor is (1 + θ) / (1 + δ), so the error is their difference over 1 + δ
  · calc |(θ - δ) / (1 + δ)| = |θ - δ| / (1 + δ) := by rw [abs_div, abs_of_pos hpos]
      _ ≤ (errorAfter u k + u) / (1 - u) := by
        refine div_le_div₀ ?_ ((abs_sub _ _).trans (add_le_add hθ hδ)) (by linarith) hden
        linarith [(abs_nonneg θ).trans hθ]
      _ ≤ errorAfter u (k + 1) := errorAfter_succ hu hk
  · have hone : 1 + (θ - δ) / (1 + δ) = (1 + θ) / (1 + δ) := by
      field_simp
      ring
    rw [hone, div_mul_div_comm]

omit [IsStrictOrderedRing K] in
/-- Dividing by an exact number leaves the roundings as they are. -/
theorem div_exact (hx : Rounded u k x y) (w : K) : Rounded u k (x / w) (y / w) := by
  obtain ⟨θ, hθ, rfl⟩ := hx
  exact ⟨θ, hθ, mul_div_right_comm y (1 + θ) w⟩

omit [IsStrictOrderedRing K] in
/-- So does multiplying by an exact number. -/
theorem mul_exact (hx : Rounded u k x y) (w : K) : Rounded u k (w * x) (w * y) := by
  obtain ⟨θ, hθ, rfl⟩ := hx
  exact ⟨θ, hθ, (mul_assoc w y (1 + θ)).symm⟩

/-- The error of a sum of numbers of one sign is that of its terms. -/
theorem add (hx : Rounded u k x y) (hw : Rounded u k w z) (hy : 0 ≤ y) (hz : 0 ≤ z) :
    Rounded u k (x + w) (y + z) := by
  obtain ⟨θ, hθ, rfl⟩ := hx
  obtain ⟨η, hη, rfl⟩ := hw
  rcases (add_nonneg hy hz).eq_or_lt with hzero | hpos
  · obtain ⟨rfl, rfl⟩ := (add_eq_zero_iff_of_nonneg hy hz).mp hzero.symm
    exact ⟨θ, hθ, by ring⟩
  · refine ⟨(y * θ + z * η) / (y + z), ?_, ?_⟩
    · rw [abs_div, abs_of_pos hpos, div_le_iff₀ hpos]
      calc |y * θ + z * η| ≤ |y * θ| + |z * η| := abs_add_le _ _
        _ = y * |θ| + z * |η| := by rw [abs_mul, abs_mul, abs_of_nonneg hy, abs_of_nonneg hz]
        _ ≤ y * errorAfter u k + z * errorAfter u k := by gcongr
        _ = errorAfter u k * (y + z) := by ring
    · rw [mul_add (y + z), mul_one, mul_div_cancel₀ _ hpos.ne']
      ring

/-- The error that the roundings leave. -/
theorem abs_sub_le (h : Rounded u k x y) : |x - y| ≤ errorAfter u k * |y| := by
  obtain ⟨θ, hθ, rfl⟩ := h
  have herror : y * (1 + θ) - y = θ * y := by ring
  rw [herror, abs_mul]
  exact mul_le_mul_of_nonneg_right hθ (abs_nonneg y)

end Rounded

/-! ## Rounding to significant digits -/

variable [FloorRing K] {b p : ℕ}

/-- Rounding to significant digits is one factor. -/
theorem roundSig_factor (hb : 1 < b) (x : K) :
    ∃ δ, |δ| ≤ (b : K) ^ (1 - p : ℤ) / 2 ∧ roundSig b p x = x * (1 + δ) := by
  have hunit : (0 : K) ≤ (b : K) ^ (1 - p : ℤ) / 2 :=
    div_nonneg (zpow_nonneg (Nat.cast_nonneg b) _) zero_le_two
  refine exists_factor hunit ?_
  rw [← mul_div_assoc]
  exact abs_roundSig_sub_le hb x

end FixedPoint
