import TradingBot.ForMathlib.SignificantDigits

/-!
# Python floats

A float is a number of 53 binary digits, and an operation gives the float nearest to its exact
result. The smallest ones have fewer digits, down to 2^-1074. The infinities and NaN are no
numbers.
-/

namespace Python

open FixedPoint

/-- The float nearest to a number, as long as that is less than 2^1024. -/
def float (x : ℚ) : ℚ := roundGradual 2 53 (-1074) x

/-- The error is at most half a unit of the last digit, or half the smallest float. -/
theorem abs_float_sub_le (x : ℚ) : |float x - x| ≤ |x| / 2 ^ 53 + 2 ^ (-1075 : ℤ) := by
  have herror := abs_roundGradual_sub_le (p := 53) (e := -1074) (by norm_num : 1 < 2) x
  have hunit : ((2 : ℕ) : ℚ) ^ (1 - (53 : ℕ) : ℤ) / 2 = 1 / 2 ^ 53 := by norm_num
  have hsmallest : ((2 : ℕ) : ℚ) ^ (-1074 : ℤ) / 2 = 2 ^ (-1075 : ℤ) := by
    rw [Nat.cast_ofNat, div_eq_mul_inv, ← zpow_sub_one₀ (by norm_num : (2 : ℚ) ≠ 0)]
    rfl
  rwa [mul_div_assoc, hunit, mul_one_div, hsmallest] at herror

/-- Half the smallest float is far below the last digit of any decimal here. -/
theorem two_zpow_lt : (2 : ℚ) ^ (-1075 : ℤ) < 1 / 4 * 10 ^ (-300 : ℤ) := by decide +kernel

/-- A larger number has no smaller float. -/
theorem float_mono : Monotone float := roundGradual_mono (by norm_num) (by norm_num)

/-- A number from the smallest normal float on is rounded to 53 binary digits. -/
theorem float_eq_roundSig {x : ℚ} (h : 2 ^ (-1022 : ℤ) ≤ |x|) : float x = roundSig 2 53 x :=
  roundGradual_eq_roundSig (by norm_num) h

/-- Whole numbers of at most 53 binary digits are floats. -/
theorem float_intCast {n : ℤ} (h : |n| < 2 ^ 53) : float n = n := by
  rcases eq_or_ne n 0 with rfl | hn
  · simp [float]
  · have hcast : |(n : ℚ)| < 2 ^ 53 := by exact_mod_cast h
    have hone : (1 : ℚ) ≤ |(n : ℚ)| := by exact_mod_cast Int.one_le_abs hn
    have hnormal : (2 : ℚ) ^ (-1022 : ℤ) ≤ 1 := zpow_le_one_of_nonpos₀ (by norm_num) (by norm_num)
    rw [float_eq_roundSig (hnormal.trans hone)]
    refine roundSig_of_lt (by norm_num) (m := n) (e := 0) (by simp) ?_
    simpa using hcast

/-- A number that is too small reads as nothing. -/
example : float (1 / 10 ^ 330) = 0 ∧ float (1 / 10 ^ 320) ≠ 0 := by decide +kernel

/-! ## Writing floats -/

/-- The nearest decimal of `p` digits that reads as the float `x`, if one does. -/
def decimalOfDigits (x : ℚ) (p : ℕ) : Option ℚ :=
  let unit := unitLastDigit 10 p x
  let below := ⌊x / unit⌋ * unit
  let above := ⌈x / unit⌉ * unit
  let nearestFirst := if x - below ≤ above - x then [below, above] else [above, below]
  nearestFirst.find? (float · = x)

/-- The decimal that `str(x)` writes: the shortest one that reads as `x`, and of these the
    nearest. Seventeen digits are always enough. -/
def strFloat (x : ℚ) : ℚ := ((List.range' 1 17).findSome? (decimalOfDigits x)).getD x

/-- The tenth that a float only comes near is written as a tenth. -/
example : strFloat (float (1 / 10)) = 1 / 10 ∧ float (1 / 10) ≠ 1 / 10 := by decide +kernel

/-- A decimal that was found reads as the float it was found for. -/
private theorem float_of_decimalOfDigits {x d : ℚ} {p : ℕ} (h : decimalOfDigits x p = some d) :
    float d = x := by
  unfold decimalOfDigits at h
  exact of_decide_eq_true (List.find?_some (p := fun c => decide (float c = x)) h)

/-- What is written for a float reads as the float. -/
theorem float_strFloat {x : ℚ} (hx : float x = x) : float (strFloat x) = x := by
  unfold strFloat
  cases hfound : (List.range' 1 17).findSome? (decimalOfDigits x) with
  | none => exact hx
  | some d =>
    obtain ⟨p, -, hp⟩ := List.exists_of_findSome?_eq_some hfound
    exact float_of_decimalOfDigits hp

end Python
