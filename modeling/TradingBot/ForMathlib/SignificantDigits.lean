import TradingBot.ForMathlib.Rounding
import Mathlib.Algebra.Order.BigOperators.Group.List
import Mathlib.Data.Int.Log

/-!
# Rounding to significant digits

Floating-point arithmetic in a base keeps a number of significant digits and rounds to
nearest, ties to the even neighbour. The base is 10 for decimals and 2 for binary floats. The
range of the exponents is not bounded, or bounded from below: then the numbers that are too
small to have all their digits keep those that are left.

## Key results

- `roundSig_of_lt`: a number with few enough digits is kept
- `abs_roundSig_sub_le`: the relative error is at most half a unit of the last digit
- `roundGradual_eq_roundSig`: with a bound on the exponents, larger numbers are rounded as before
-/

namespace FixedPoint

variable {K : Type*} [Field K] [LinearOrder K] [IsStrictOrderedRing K] [FloorRing K]

/-- The unit of the last of `p` significant digits of a number. -/
def unitLastDigit (b p : ℕ) (x : K) : K := (b : K) ^ (Int.log b |x| - (p - 1 : ℤ))

/-- Round to `p` significant digits in base `b`. -/
def roundSig (b p : ℕ) (x : K) : K :=
  if x = 0 then 0 else roundHalfEven (x / unitLastDigit b p x) * unitLastDigit b p x

variable {b p : ℕ} {x : K}

omit [IsStrictOrderedRing K] in
/-- Zero has no digits to round. -/
@[simp] theorem roundSig_zero : roundSig b p (0 : K) = 0 := if_pos rfl

/-- The unit of the last digit is positive. -/
theorem unitLastDigit_pos (hb : 1 < b) : 0 < unitLastDigit b p x :=
  zpow_pos (by exact_mod_cast (zero_lt_one.trans hb)) _

/-- A number is kept when it is a multiple of the unit of its last digit. -/
theorem roundSig_of_eq_mul (hb : 1 < b) {k : ℤ} (h : x = k * unitLastDigit b p x) :
    roundSig b p x = x := by
  have hunit := unitLastDigit_pos (p := p) (x := x) hb
  unfold roundSig
  split
  next hzero => exact hzero.symm
  next =>
    rw [(div_eq_iff hunit.ne').mpr h, roundHalfEven_intCast]
    exact h.symm

/-- A number of at most `p` digits is kept, wherever its point is. -/
theorem roundSig_of_lt (hb : 1 < b) {m e : ℤ} (hx : x = m * (b : K) ^ e)
    (hm : |x| < (b : K) ^ (p + e)) : roundSig b p x = x := by
  have hbpos : (0 : K) < b := by exact_mod_cast (zero_lt_one.trans hb)
  by_cases hzero : x = 0
  · rw [hzero, roundSig_zero]
  · -- the last of `p` digits is at or before the last digit there is
    have hlog : Int.log b |x| < p + e := (Int.lt_zpow_iff_log_lt hb (abs_pos.mpr hzero)).mp hm
    obtain ⟨n, hn⟩ : ∃ n : ℕ, e = (Int.log b |x| - (p - 1 : ℤ)) + n :=
      ⟨(e - (Int.log b |x| - (p - 1 : ℤ))).toNat, by omega⟩
    refine roundSig_of_eq_mul hb (k := m * (b : ℤ) ^ n) ?_
    calc x = m * (b : K) ^ e := hx
      _ = m * (unitLastDigit b p x * (b : K) ^ n) := by
        rw [hn, zpow_add₀ hbpos.ne', zpow_natCast, unitLastDigit]
      _ = (m * (b : ℤ) ^ n : ℤ) * unitLastDigit b p x := by
        push_cast
        ring

/-- The relative error is at most half a unit of the last digit. -/
theorem abs_roundSig_sub_le (hb : 1 < b) (x : K) :
    |roundSig b p x - x| ≤ |x| * (b : K) ^ (1 - p : ℤ) / 2 := by
  have hbpos : (0 : K) < b := by exact_mod_cast (zero_lt_one.trans hb)
  by_cases hzero : x = 0
  · simp [hzero]
  · have hunit := unitLastDigit_pos (p := p) (x := x) hb
    have hround : |roundSig b p x - x| ≤ unitLastDigit b p x / 2 := by
      have hnear := abs_roundHalfEven_sub_le (x / unitLastDigit b p x)
      rw [roundSig, if_neg hzero]
      calc |roundHalfEven (x / unitLastDigit b p x) * unitLastDigit b p x - x|
          = |(roundHalfEven (x / unitLastDigit b p x) - x / unitLastDigit b p x) *
              unitLastDigit b p x| := by rw [sub_mul, div_mul_cancel₀ x hunit.ne']
        _ = |(roundHalfEven (x / unitLastDigit b p x) - x / unitLastDigit b p x : K)| *
              unitLastDigit b p x := by rw [abs_mul, abs_of_pos hunit]
        _ ≤ 1 / 2 * unitLastDigit b p x := mul_le_mul_of_nonneg_right hnear hunit.le
        _ = unitLastDigit b p x / 2 := by ring
    -- the unit is that of the first digit, scaled down
    have hscale : unitLastDigit b p x = (b : K) ^ Int.log b |x| * (b : K) ^ (1 - p : ℤ) := by
      rw [unitLastDigit, ← zpow_add₀ hbpos.ne']
      congr 1
      ring
    have hfirst : (b : K) ^ Int.log b |x| ≤ |x| := Int.zpow_log_le_self hb (abs_pos.mpr hzero)
    have hfactor : 0 ≤ (b : K) ^ (1 - p : ℤ) := (zpow_pos hbpos _).le
    rw [hscale] at hround
    exact hround.trans (by gcongr)

/-- Rounding to significant digits keeps the sign. -/
theorem roundSig_nonneg (hb : 1 < b) (hx : 0 ≤ x) : 0 ≤ roundSig b p x := by
  have hunit := unitLastDigit_pos (p := p) (x := x) hb
  unfold roundSig
  split
  next => exact le_rfl
  next =>
    have hquotient := roundHalfEven_nonneg (div_nonneg hx hunit.le)
    exact mul_nonneg (by exact_mod_cast hquotient) hunit.le

/-! ## Monotonicity -/

/-- A positive number lies between two powers of the base, and so does what it is rounded to. -/
private theorem roundSig_between (hb : 1 < b) (hp : 0 < p) (hx : 0 < x) :
    (b : K) ^ Int.log b x ≤ roundSig b p x ∧ roundSig b p x ≤ (b : K) ^ (Int.log b x + 1) := by
  have hbpos : (0 : K) < b := by exact_mod_cast (zero_lt_one.trans hb)
  have hunit := unitLastDigit_pos (p := p) (x := x) hb
  obtain ⟨n, rfl⟩ : ∃ n, p = n + 1 := ⟨p - 1, by omega⟩
  -- both powers are whole multiples of the unit, which rounding keeps
  have hlow : (b : K) ^ Int.log b x = ((b ^ n : ℕ) : ℤ) * unitLastDigit b (n + 1) x := by
    rw [unitLastDigit, abs_of_pos hx]
    push_cast
    rw [← zpow_natCast, ← zpow_add₀ hbpos.ne']
    congr 1
    ring
  have hhigh : (b : K) ^ (Int.log b x + 1) =
      ((b ^ (n + 1) : ℕ) : ℤ) * unitLastDigit b (n + 1) x := by
    rw [unitLastDigit, abs_of_pos hx]
    push_cast
    rw [← zpow_natCast, ← zpow_add₀ hbpos.ne']
    congr 1
    push_cast
    ring
  have hle : (b : K) ^ Int.log b x ≤ x := Int.zpow_log_le_self hb hx
  have hlt : x < (b : K) ^ (Int.log b x + 1) := Int.lt_zpow_succ_log_self hb x
  rw [roundSig, if_neg hx.ne', hlow, hhigh]
  rw [hlow] at hle
  rw [hhigh] at hlt
  constructor
  · refine mul_le_mul_of_nonneg_right ?_ hunit.le
    have hmono := roundHalfEven_mono ((le_div_iff₀ hunit).mpr hle)
    rw [roundHalfEven_intCast] at hmono
    exact_mod_cast hmono
  · refine mul_le_mul_of_nonneg_right ?_ hunit.le
    have hmono := roundHalfEven_mono ((div_le_iff₀ hunit).mpr hlt.le)
    rw [roundHalfEven_intCast] at hmono
    exact_mod_cast hmono

/-- Positive numbers keep their order. The two cases are those of one exponent for both, and of a
    power of the base between them. -/
private theorem roundSig_mono_of_pos (hb : 1 < b) (hp : 0 < p) {x y : K} (hx : 0 < x)
    (hxy : x ≤ y) : roundSig b p x ≤ roundSig b p y := by
  have hy : 0 < y := hx.trans_le hxy
  rcases (Int.log_mono_right (b := b) hx hxy).eq_or_lt with heq | hlt
  · -- within one power of the base the unit is the same
    have hunit : unitLastDigit b p x = unitLastDigit b p y := by
      rw [unitLastDigit, unitLastDigit, abs_of_pos hx, abs_of_pos hy, heq]
    have hpos := unitLastDigit_pos (p := p) (x := y) hb
    rw [roundSig, roundSig, if_neg hx.ne', if_neg hy.ne', hunit]
    have hmono := roundHalfEven_mono (div_le_div_of_nonneg_right hxy hpos.le)
    exact mul_le_mul_of_nonneg_right (by exact_mod_cast hmono) hpos.le
  · -- a power of the base lies between the two
    have hone : (1 : K) ≤ b := by exact_mod_cast hb.le
    calc roundSig b p x ≤ (b : K) ^ (Int.log b x + 1) := (roundSig_between hb hp hx).2
      _ ≤ (b : K) ^ Int.log b y := zpow_le_zpow_right₀ hone hlt
      _ ≤ roundSig b p y := (roundSig_between hb hp hy).1

/-- Rounding to significant digits is odd. -/
theorem roundSig_neg (x : K) : roundSig b p (-x) = -roundSig b p x := by
  unfold roundSig unitLastDigit
  simp only [neg_eq_zero, abs_neg]
  split
  next => simp
  next => rw [neg_div, roundHalfEven_neg]; push_cast; ring

/-- Rounding to significant digits keeps the order. -/
theorem roundSig_mono (hb : 1 < b) (hp : 0 < p) : Monotone (roundSig b p : K → K) := by
  intro x y hxy
  rcases lt_trichotomy 0 x with hx | rfl | hx
  · exact roundSig_mono_of_pos hb hp hx hxy
  · rw [roundSig_zero]
    exact roundSig_nonneg hb hxy
  · rcases le_or_gt 0 y with hy | hy
    · have hneg := roundSig_nonneg (p := p) hb (neg_pos.mpr hx).le
      rw [roundSig_neg] at hneg
      linarith [roundSig_nonneg (p := p) hb hy]
    · have hmirror := roundSig_mono_of_pos hb hp (neg_pos.mpr hy) (neg_le_neg hxy)
      rw [roundSig_neg, roundSig_neg] at hmirror
      exact neg_le_neg_iff.mp hmirror

/-! ## Gradual underflow -/

/-- Round to `p` significant digits in base `b`, or to a multiple of the `e`th power of the base
    where that is coarser. -/
def roundGradual (b p : ℕ) (e : ℤ) (x : K) : K :=
  let unit := (b : K) ^ max (Int.log b |x| - (p - 1 : ℤ)) e
  roundHalfEven (x / unit) * unit

section Gradual

variable {e : ℤ}

/-- A number that has all its digits is rounded to these. -/
theorem roundGradual_eq_roundSig (hb : 1 < b) (h : (b : K) ^ (e + (p - 1)) ≤ |x|) :
    roundGradual b p e x = roundSig b p x := by
  have hbpos : (0 : K) < b := by exact_mod_cast (zero_lt_one.trans hb)
  have hpos : 0 < |x| := (zpow_pos hbpos _).trans_le h
  have hlog := (Int.zpow_le_iff_le_log hb hpos).mp h
  rw [roundGradual, max_eq_left (by omega), roundSig, if_neg (abs_pos.mp hpos), unitLastDigit]

/-- Any other number is rounded to a multiple of the smallest unit. -/
theorem roundGradual_of_lt (hb : 1 < b) (h : |x| < (b : K) ^ (e + (p - 1))) :
    roundGradual b p e x = roundHalfEven (x / (b : K) ^ e) * (b : K) ^ e := by
  rcases eq_or_ne x 0 with rfl | hx
  · simp [roundGradual]
  · have hlog := (Int.lt_zpow_iff_log_lt hb (abs_pos.mpr hx)).mp h
    rw [roundGradual, max_eq_right (by omega)]

/-- Zero is rounded to zero. -/
@[simp] theorem roundGradual_zero : roundGradual b p e (0 : K) = 0 := by simp [roundGradual]

/-- The error is at most half a unit of the last digit, or half the smallest unit. -/
theorem abs_roundGradual_sub_le (hb : 1 < b) (x : K) :
    |roundGradual b p e x - x| ≤ |x| * (b : K) ^ (1 - p : ℤ) / 2 + (b : K) ^ e / 2 := by
  have hbpos : (0 : K) < b := by exact_mod_cast (zero_lt_one.trans hb)
  have hunit : 0 < (b : K) ^ e := zpow_pos hbpos e
  rcases le_or_gt ((b : K) ^ (e + (p - 1))) |x| with hlarge | hsmall
  -- with all its digits the error is relative, and below it is absolute
  · rw [roundGradual_eq_roundSig hb hlarge]
    linarith [abs_roundSig_sub_le (p := p) hb x]
  · have hnear := abs_roundHalfEven_sub_le (x / (b : K) ^ e)
    have hrelative : 0 ≤ |x| * (b : K) ^ (1 - p : ℤ) :=
      mul_nonneg (abs_nonneg x) (zpow_pos hbpos _).le
    rw [roundGradual_of_lt hb hsmall]
    calc |roundHalfEven (x / (b : K) ^ e) * (b : K) ^ e - x|
        = |(roundHalfEven (x / (b : K) ^ e) - x / (b : K) ^ e) * (b : K) ^ e| := by
          rw [sub_mul, div_mul_cancel₀ x hunit.ne']
      _ = |(roundHalfEven (x / (b : K) ^ e) - x / (b : K) ^ e : K)| * (b : K) ^ e := by
          rw [abs_mul, abs_of_pos hunit]
      _ ≤ 1 / 2 * (b : K) ^ e := mul_le_mul_of_nonneg_right hnear hunit.le
      _ ≤ |x| * (b : K) ^ (1 - p : ℤ) / 2 + (b : K) ^ e / 2 := by linarith

/-- What has not all its digits is rounded to no more than the first number that has. -/
theorem abs_roundGradual_le (hb : 1 < b) (hp : 0 < p) (h : |x| < (b : K) ^ (e + (p - 1))) :
    |roundGradual b p e x| ≤ (b : K) ^ (e + (p - 1)) := by
  have hbpos : (0 : K) < b := by exact_mod_cast (zero_lt_one.trans hb)
  have hunit : 0 < (b : K) ^ e := zpow_pos hbpos e
  obtain ⟨n, rfl⟩ : ∃ n, p = n + 1 := ⟨p - 1, by omega⟩
  -- the bound is a whole multiple of the unit
  have hbound : (b : K) ^ (e + (((n + 1 : ℕ) : ℤ) - 1)) = ((b ^ n : ℕ) : ℤ) * (b : K) ^ e := by
    rw [Nat.cast_succ, add_sub_cancel_right, zpow_add₀ hbpos.ne', zpow_natCast, mul_comm]
    push_cast
    rfl
  rw [roundGradual_of_lt hb h, abs_mul, abs_of_pos hunit, hbound]
  refine mul_le_mul_of_nonneg_right ?_ hunit.le
  rw [hbound, abs_lt] at h
  have hlow := roundHalfEven_mono ((le_div_iff₀ hunit).mpr ((neg_mul _ _).trans_le h.1.le))
  have hhigh := roundHalfEven_mono ((div_le_iff₀ hunit).mpr h.2.le)
  rw [← Int.cast_neg, roundHalfEven_intCast] at hlow
  rw [roundHalfEven_intCast] at hhigh
  rw [← Int.cast_abs, Int.cast_le]
  exact abs_le.mpr ⟨hlow, hhigh⟩

/-- Rounding with gradual underflow keeps the order. -/
theorem roundGradual_mono (hb : 1 < b) (hp : 0 < p) :
    Monotone (roundGradual b p e : K → K) := by
  have hbpos : (0 : K) < b := by exact_mod_cast (zero_lt_one.trans hb)
  have hunit : 0 < (b : K) ^ e := zpow_pos hbpos e
  -- the numbers that have all their digits start at a number that is kept
  set first := (b : K) ^ (e + (p - 1)) with hfirst
  have hfirstPos : 0 < first := zpow_pos hbpos _
  have hkept : roundSig b p first = first := by
    refine roundSig_of_lt (m := 1) (e := e + (p - 1)) hb (by simp [hfirst]) ?_
    rw [abs_of_pos hfirstPos, hfirst]
    exact zpow_lt_zpow_right₀ (by exact_mod_cast hb) (by omega)
  intro x y hxy
  rcases le_or_gt first |x| with hx | hx <;> rcases le_or_gt first |y| with hy | hy
  · rw [roundGradual_eq_roundSig hb hx, roundGradual_eq_roundSig hb hy]
    exact roundSig_mono hb hp hxy
  · -- only the lower one has all its digits, and it is negative
    have hneg : x ≤ -first := by
      rcases le_abs.mp hx with hpos | hneg
      · linarith [(abs_lt.mp hy).2]
      · linarith
    have hmono := roundSig_mono hb hp hneg
    rw [roundSig_neg, hkept] at hmono
    rw [roundGradual_eq_roundSig hb hx]
    linarith [(abs_le.mp (abs_roundGradual_le hb hp hy)).1]
  · -- only the upper one has all its digits, and it is positive
    have hpos : first ≤ y := by
      rcases le_abs.mp hy with hpos | hneg
      · exact hpos
      · linarith [(abs_lt.mp hx).1]
    have hmono := roundSig_mono hb hp hpos
    rw [hkept] at hmono
    rw [roundGradual_eq_roundSig hb hy]
    linarith [(abs_le.mp (abs_roundGradual_le hb hp hx)).2]
  · rw [roundGradual_of_lt hb hx, roundGradual_of_lt hb hy]
    have hmono := roundHalfEven_mono (div_le_div_of_nonneg_right hxy hunit.le)
    exact mul_le_mul_of_nonneg_right (by exact_mod_cast hmono) hunit.le

end Gradual

/-! ## Gaps -/

/-- A number that is more than half a unit below the first power of the base with too many digits
    is rounded to one that is at least a unit below it. -/
theorem roundSig_add_unit_le (hb : 1 < b) (hp : 0 < p) {e : ℤ}
    (h : x + (b : K) ^ e / 2 < (b : K) ^ (p + e)) :
    roundSig b p x + (b : K) ^ e ≤ (b : K) ^ (p + e) := by
  have hbpos : (0 : K) < b := by exact_mod_cast (zero_lt_one.trans hb)
  have htwo : (2 : K) ≤ b := by exact_mod_cast hb
  have hunit : 0 < (b : K) ^ e := zpow_pos hbpos e
  obtain ⟨n, rfl⟩ : ∃ n, p = n + 1 := ⟨p - 1, by omega⟩
  have hscale : ((b ^ (n + 1) : ℕ) : K) * (b : K) ^ e = (b : K) ^ (((n + 1 : ℕ) : ℤ) + e) := by
    rw [Nat.cast_pow, ← zpow_natCast, ← zpow_add₀ hbpos.ne']
  have hlead : (b : K) ^ (((n + 1 : ℕ) : ℤ) + e) = b * (b : K) ^ (n + e : ℤ) := by
    rw [← zpow_one_add₀ hbpos.ne']
    congr 1
    push_cast
    ring
  rcases lt_or_ge x ((b : K) ^ (n + e : ℤ)) with hlow | hhigh
  · -- below the power before it the number stays below that power
    have hkept : roundSig b (n + 1) ((b : K) ^ (n + e : ℤ)) = (b : K) ^ (n + e : ℤ) := by
      refine roundSig_of_lt (m := 1) (e := n + e) hb (by simp) ?_
      rw [abs_of_pos (zpow_pos hbpos _)]
      exact zpow_lt_zpow_right₀ (by exact_mod_cast hb) (by push_cast; omega)
    have hle := (roundSig_mono hb hp hlow.le).trans_eq hkept
    have hone : (b : K) ^ e ≤ (b : K) ^ (n + e : ℤ) :=
      zpow_le_zpow_right₀ (by exact_mod_cast hb.le) (by omega)
    rw [hlead]
    nlinarith
  · -- above it the unit is known
    have hx : 0 < x := (zpow_pos hbpos _).trans_le hhigh
    have hlog : Int.log b x = n + e := by
      refine le_antisymm ?_ ((Int.zpow_le_iff_le_log hb hx).mp hhigh)
      have hlt : x < (b : K) ^ (((n + 1 : ℕ) : ℤ) + e) := by linarith
      have := (Int.lt_zpow_iff_log_lt hb hx).mp hlt
      push_cast at this
      omega
    have hdigit : unitLastDigit b (n + 1) x = (b : K) ^ e := by
      rw [unitLastDigit, abs_of_pos hx, hlog]
      congr 1
      push_cast
      ring
    rw [← hscale] at h ⊢
    rw [roundSig, if_neg hx.ne', hdigit]
    -- so a whole number of units is left, and it is below the power
    have hquotient : x / (b : K) ^ e + 1 / 2 < ((b ^ (n + 1) : ℕ) : ℤ) := by
      rw [← lt_sub_iff_add_lt, div_lt_iff₀ hunit]
      push_cast
      push_cast at h
      linarith
    have hstep : (roundHalfEven (x / (b : K) ^ e) : K) + 1 ≤ (b ^ (n + 1) : ℕ) := by
      exact_mod_cast Int.add_one_le_iff.mpr (roundHalfEven_lt hquotient)
    nlinarith

/-! ## Numbers on a grid -/

/-- A number with `n` digits after the point and at most `p - n` before it is kept. -/
theorem roundSig_of_mem_grid {n m : ℕ} (hx : x ∈ Grid K n) (hm : |x| < 10 ^ m)
    (hp : n + m ≤ p) : roundSig 10 p x = x := by
  obtain ⟨k, hk⟩ := mem_grid.mp hx
  have hten : (1 : K) ≤ 10 := by norm_num
  have hzpow : x = k * ((10 : ℕ) : K) ^ (-n : ℤ) := by
    rw [hk, zpow_neg, zpow_natCast, div_eq_mul_inv, Nat.cast_ofNat]
  refine roundSig_of_lt (by norm_num) hzpow ?_
  calc |x| < (10 : K) ^ m := hm
    _ = (10 : K) ^ (m : ℤ) := (zpow_natCast _ _).symm
    _ ≤ ((10 : ℕ) : K) ^ (p + -n : ℤ) := by
      rw [Nat.cast_ofNat]
      exact zpow_le_zpow_right₀ hten (by omega)

/-- A number on a grid is kept if its units are fewer than `p` digits count. -/
theorem roundSig_of_units_lt {n : ℕ} (hx : x ∈ Grid K n) (hlt : |x| * 10 ^ n < 10 ^ p) :
    roundSig 10 p x = x := by
  obtain ⟨k, hk⟩ := mem_grid.mp hx
  have hten : (0 : K) < 10 := by norm_num
  have hzpow : x = k * ((10 : ℕ) : K) ^ (-n : ℤ) := by
    rw [hk, zpow_neg, zpow_natCast, div_eq_mul_inv, Nat.cast_ofNat]
  refine roundSig_of_lt (by norm_num) hzpow ?_
  rw [Nat.cast_ofNat, zpow_add₀ hten.ne', zpow_neg, zpow_natCast, zpow_natCast, ← div_eq_mul_inv,
    lt_div_iff₀ (pow_pos hten n)]
  exact hlt

/-- A sum that rounds after every addition is exact, as long as the total of the terms has few
    enough digits. -/
theorem foldl_roundSig_add {n : ℕ} {terms : List K} {start : K} (hstart : start ∈ Grid K n)
    (hterms : ∀ t ∈ terms, t ∈ Grid K n) (hnonneg : 0 ≤ start) (hpos : ∀ t ∈ terms, 0 ≤ t)
    (hlt : (start + terms.sum) * 10 ^ n < 10 ^ p) :
    terms.foldl (fun total t => roundSig 10 p (total + t)) start = start + terms.sum := by
  induction terms generalizing start with
  | nil => simp
  | cons t ts ih =>
    rw [List.forall_mem_cons] at hterms hpos
    rw [List.sum_cons, ← add_assoc] at hlt ⊢
    have hsum : 0 ≤ start + t := add_nonneg hnonneg hpos.1
    have hle : start + t ≤ start + t + ts.sum :=
      le_add_of_nonneg_right (List.sum_nonneg hpos.2)
    -- no partial sum has more digits than the whole one, so none is rounded
    have hkept : roundSig 10 p (start + t) = start + t := by
      refine roundSig_of_units_lt (add_mem hstart hterms.1) ?_
      rw [abs_of_nonneg hsum]
      exact (mul_le_mul_of_nonneg_right hle (by positivity)).trans_lt hlt
    rw [List.foldl_cons, hkept]
    exact ih (add_mem hstart hterms.1) hterms.2 hsum hpos.2 hlt

omit [FloorRing K] in
/-- Two quotients of numbers on a grid are equal, or a unit over both divisors apart. -/
theorem inv_le_abs_div_sub_div {n c d : ℕ} {x y : K} (hx : x ∈ Grid K n) (hy : y ∈ Grid K n)
    (hc : 0 < c) (hd : 0 < d) (hne : x / c ≠ y / d) :
    ((10 : K) ^ n * (c * d))⁻¹ ≤ |x / c - y / d| := by
  obtain ⟨i, rfl⟩ := mem_grid.mp hx
  obtain ⟨j, rfl⟩ := mem_grid.mp hy
  have hcK : (0 : K) < c := Nat.cast_pos.mpr hc
  have hdK : (0 : K) < d := Nat.cast_pos.mpr hd
  have hden : (0 : K) < 10 ^ n * (c * d) := by positivity
  -- both quotients are whole numbers of one small unit
  have hdiff : (i / 10 ^ n / c - j / 10 ^ n / d : K) =
      ((i * d - j * c : ℤ) : K) / (10 ^ n * (c * d)) := by
    push_cast
    field_simp
  -- and different ones
  have hunits : (i * d - j * c : ℤ) ≠ 0 := by
    intro hzero
    rw [hzero, Int.cast_zero, zero_div] at hdiff
    exact hne (sub_eq_zero.mp hdiff)
  rw [hdiff, abs_div, abs_of_pos hden, inv_eq_one_div, ← Int.cast_abs]
  exact div_le_div_of_nonneg_right (by exact_mod_cast Int.one_le_abs hunits) hden.le

/-- Rounding keeps the order of two numbers that are further apart than its errors. -/
theorem roundSig_lt_roundSig (hb : 1 < b) {x y : K}
    (h : (|x| + |y|) * (b : K) ^ (1 - p : ℤ) / 2 < y - x) : roundSig b p x < roundSig b p y := by
  have hx := (abs_le.mp (abs_roundSig_sub_le (p := p) hb x)).2
  have hy := (abs_le.mp (abs_roundSig_sub_le (p := p) hb y)).1
  rw [add_mul, add_div] at h
  linarith

/-- Rounding keeps the order of two different quotients of numbers on a grid, as long as the
    divisors leave room for the gap between them. -/
private theorem roundSig_div_lt {n m c d : ℕ} {x y : K} (hx : x ∈ Grid K n) (hy : y ∈ Grid K n)
    (hc : 0 < c) (hd : 0 < d) (hxm : |x / c| < 10 ^ m) (hym : |y / d| < 10 ^ m)
    (hroom : 10 ^ (n + m + 1) * (c * d) ≤ 10 ^ p) (hlt : x / c < y / d) :
    roundSig 10 p (x / c) < roundSig 10 p (y / d) := by
  have hgap := inv_le_abs_div_sub_div hy hx hd hc hlt.ne'
  rw [abs_of_pos (sub_pos.mpr hlt), mul_comm (d : K)] at hgap
  have hden : (0 : K) < 10 ^ n * (c * d) := by positivity
  have hunit : (0 : K) < 10 ^ (1 - p : ℤ) := zpow_pos (by norm_num) _
  -- the errors, in units of the gap
  have hsmall : (10 : K) ^ m * 10 ^ (1 - p : ℤ) ≤ ((10 : K) ^ n * (c * d))⁻¹ := by
    have hcast : (10 : K) ^ (n + m + 1) * (c * d) ≤ 10 ^ p := by exact_mod_cast hroom
    have hten : (10 : K) ≠ 0 := by norm_num
    rw [← one_div, le_div_iff₀ hden, zpow_sub₀ hten, zpow_one, zpow_natCast, ← mul_div_assoc,
      div_mul_eq_mul_div, div_le_one (by positivity)]
    calc (10 : K) ^ m * 10 * (10 ^ n * (c * d)) = 10 ^ (n + m + 1) * (c * d) := by ring
      _ ≤ 10 ^ p := hcast
  refine roundSig_lt_roundSig (by norm_num) ?_
  rw [Nat.cast_ofNat]
  calc (|x / c| + |y / d|) * (10 : K) ^ (1 - p : ℤ) / 2
      < (10 ^ m + 10 ^ m) * (10 : K) ^ (1 - p : ℤ) / 2 := by gcongr
    _ = 10 ^ m * (10 : K) ^ (1 - p : ℤ) := by ring
    _ ≤ y / d - x / c := hsmall.trans hgap

/-- Quotients of numbers on a grid compare after rounding as before, as long as the divisors
    leave room for the gap between two of them. -/
theorem roundSig_div_lt_iff {n m c d : ℕ} {x y : K} (hx : x ∈ Grid K n) (hy : y ∈ Grid K n)
    (hc : 0 < c) (hd : 0 < d) (hxm : |x / c| < 10 ^ m) (hym : |y / d| < 10 ^ m)
    (hroom : 10 ^ (n + m + 1) * (c * d) ≤ 10 ^ p) :
    roundSig 10 p (x / c) < roundSig 10 p (y / d) ↔ x / c < y / d := by
  refine ⟨fun hrounded => ?_, roundSig_div_lt hx hy hc hd hxm hym hroom⟩
  by_contra hle
  rcases (not_lt.mp hle).eq_or_lt with heq | hlt
  · rw [heq] at hrounded
    exact hrounded.false
  · exact hrounded.not_gt (roundSig_div_lt hy hx hd hc hym hxm (by rwa [mul_comm d]) hlt)

omit [FloorRing K] in
/-- Between two numbers on a grid there is a whole unit. -/
theorem le_of_lt_add_unit {n : ℕ} {x y : K} (hx : x ∈ Grid K n) (hy : y ∈ Grid K n)
    (h : x < y + ((10 : K) ^ n)⁻¹) : x ≤ y := by
  obtain ⟨i, rfl⟩ := mem_grid.mp hx
  obtain ⟨j, rfl⟩ := mem_grid.mp hy
  have hpos : (0 : K) < 10 ^ n := by positivity
  rw [← one_div, ← add_div, div_lt_div_iff_of_pos_right hpos] at h
  have hij : i < j + 1 := by exact_mod_cast h
  rw [div_le_div_iff_of_pos_right hpos]
  exact_mod_cast Int.lt_add_one_iff.mp hij

/-- What a rounded quotient of at most `y` buys is worth at most `y`, as long as both are on a
    grid on which the digits of `y` do not reach the last place: the error of the rounding does
    not bridge the gap to the next point of the grid. -/
theorem mul_le_of_le_roundSig_div {n m : ℕ} {q d y : K} (hq : q ≤ roundSig 10 p (x / d))
    (hd : 0 < d) (hx : 0 ≤ x) (hxy : x ≤ y) (hqd : q * d ∈ Grid K n) (hy : y ∈ Grid K n)
    (hm : y < 10 ^ m) (hp : n + m < p) : q * d ≤ y := by
  have hten : (1 : K) < 10 := by norm_num
  have hquotient : 0 ≤ x / d := div_nonneg hx hd.le
  have herror := (abs_le.mp (abs_roundSig_sub_le (K := K) (p := p) (by norm_num : 1 < 10)
    (x / d))).2
  rw [abs_of_nonneg hquotient, Nat.cast_ofNat] at herror
  have hfactor : 0 ≤ (10 : K) ^ (1 - p : ℤ) := (zpow_pos (by norm_num) _).le
  -- the error, in units of the grid
  have hsmall : y * (10 : K) ^ (1 - p : ℤ) ≤ ((10 : K) ^ n)⁻¹ := by
    calc y * (10 : K) ^ (1 - p : ℤ) ≤ (10 : K) ^ (m : ℤ) * (10 : K) ^ (1 - p : ℤ) := by
          rw [zpow_natCast]
          exact mul_le_mul_of_nonneg_right hm.le hfactor
      _ = (10 : K) ^ (m + (1 - p) : ℤ) := (zpow_add₀ (by norm_num) _ _).symm
      _ ≤ (10 : K) ^ (-n : ℤ) := zpow_le_zpow_right₀ hten.le (by omega)
      _ = ((10 : K) ^ n)⁻¹ := by rw [zpow_neg, zpow_natCast]
  refine le_of_lt_add_unit hqd hy ?_
  have hunit : (0 : K) < ((10 : K) ^ n)⁻¹ := by positivity
  calc q * d ≤ (x / d + x / d * (10 : K) ^ (1 - p : ℤ) / 2) * d := by
        gcongr
        linarith
    _ = x + x * (10 : K) ^ (1 - p : ℤ) / 2 := by
        field_simp
    _ ≤ y + y * (10 : K) ^ (1 - p : ℤ) / 2 := by gcongr
    _ < y + ((10 : K) ^ n)⁻¹ := by linarith

end FixedPoint
