import Mathlib.Algebra.Order.Floor.Ring
import Mathlib.Algebra.Order.Archimedean.Basic
import Mathlib.Algebra.Group.Subgroup.ZPowers.Basic
import Mathlib.Data.Rat.Floor
import Mathlib.Tactic.Linarith
import Mathlib.Tactic.FieldSimp
import Mathlib.Tactic.Ring

/-!
# Fixed-point grids and rounding onto them

The numbers with at most `n` digits after the point form an additive subgroup of
the ambient field, `Grid n`. Two ways of rounding a number onto a grid are
developed: `truncateTo` (towards zero, `ROUND_DOWN`) and `roundTo` (to nearest,
ties away from zero, `ROUND_HALF_UP`).

Everything holds over an arbitrary linearly ordered field with a floor function.

## Key results

- `grid_mul`: the product of an `m`-digit and an `n`-digit number has `m + n` digits
- `truncateTo_mem` / `roundTo_mem`: rounding lands on the grid
- `isGreatest_truncateTo`: truncation finds the greatest grid point below a number
- `roundTo_of_mem`: rounding is exact on the grid
- `roundTo_mono`: rounding to nearest is monotone
- `roundTo_pos_iff`: which numbers round to a positive one
-/

namespace FixedPoint

variable {K : Type*} [Field K]

/-- The numbers with at most `n` decimal digits after the point. -/
def Grid (K : Type*) [Field K] (n : ℕ) : AddSubgroup K :=
  AddSubgroup.zmultiples ((10 : K) ^ n)⁻¹

/-- A number is on the `n`-digit grid when it is an integer over `10 ^ n`. -/
theorem mem_grid {n : ℕ} {x : K} : x ∈ Grid K n ↔ ∃ k : ℤ, x = k / 10 ^ n := by
  simp only [Grid, AddSubgroup.mem_zmultiples_iff, zsmul_eq_mul, div_eq_mul_inv, eq_comm]

/-- A whole number of units is on the grid. -/
theorem intCast_div_mem_grid (k : ℤ) (n : ℕ) : (k : K) / 10 ^ n ∈ Grid K n :=
  mem_grid.mpr ⟨k, rfl⟩

section Digits

variable [CharZero K]

/-- The unit of a grid can be divided by. -/
private theorem ten_pow_ne_zero (n : ℕ) : (10 : K) ^ n ≠ 0 :=
  pow_ne_zero n (by norm_num)

/-- A finer grid contains a coarser one. -/
theorem grid_mono {m n : ℕ} (hmn : m ≤ n) {x : K} (hx : x ∈ Grid K m) : x ∈ Grid K n := by
  obtain ⟨k, rfl⟩ := mem_grid.mp hx
  refine mem_grid.mpr ⟨k * 10 ^ (n - m), ?_⟩
  -- the same number over the finer denominator
  have hpow : (10 : K) ^ n = 10 ^ (n - m) * 10 ^ m := by rw [← pow_add]; congr 1; omega
  have hm := ten_pow_ne_zero (K := K) m
  have hd := ten_pow_ne_zero (K := K) (n - m)
  rw [hpow]
  push_cast
  field_simp

/-- The digits after the point add up under multiplication. -/
theorem grid_mul {m n : ℕ} {x y : K} (hx : x ∈ Grid K m) (hy : y ∈ Grid K n) :
    x * y ∈ Grid K (m + n) := by
  obtain ⟨i, rfl⟩ := mem_grid.mp hx
  obtain ⟨j, rfl⟩ := mem_grid.mp hy
  refine mem_grid.mpr ⟨i * j, ?_⟩
  have hm := ten_pow_ne_zero (K := K) m
  have hn := ten_pow_ne_zero (K := K) n
  rw [pow_add]
  push_cast
  field_simp

end Digits

variable [LinearOrder K] [IsStrictOrderedRing K] [FloorRing K]

/-! ## Rounding to an integer -/

/-- Drop the fractional part. -/
def truncate (x : K) : ℤ := if 0 ≤ x then ⌊x⌋ else ⌈x⌉

/-- Nearest integer, ties away from zero. -/
def roundHalfUp (x : K) : ℤ := if 0 ≤ x then ⌊x + 1 / 2⌋ else ⌈x - 1 / 2⌉

/-- Nearest integer, ties to the even one. -/
def roundHalfEven (x : K) : ℤ :=
  if Int.fract x < 1 / 2 then ⌊x⌋
  else if 1 / 2 < Int.fract x then ⌊x⌋ + 1
  else if ⌊x⌋ % 2 = 0 then ⌊x⌋ else ⌊x⌋ + 1

omit [IsStrictOrderedRing K] in
/-- Truncation is the floor from zero on. -/
theorem truncate_of_nonneg {x : K} (hx : 0 ≤ x) : truncate x = ⌊x⌋ := if_pos hx

/-- Truncation leaves whole numbers alone. -/
@[simp] theorem truncate_intCast (k : ℤ) : truncate (k : K) = k := by simp [truncate]

/-- Truncation loses at most one. -/
theorem abs_sub_truncate_le (x : K) : |x - truncate x| ≤ 1 := by
  unfold truncate
  rw [abs_le]
  split
  · constructor <;> linarith [Int.floor_le x, Int.lt_floor_add_one x]
  · constructor <;> linarith [Int.le_ceil x, Int.ceil_lt_add_one x]

/-- An integer is its own nearest integer: half a unit is not enough to leave it. -/
@[simp] theorem roundHalfUp_intCast (k : ℤ) : roundHalfUp (k : K) = k := by
  unfold roundHalfUp
  split
  · rw [Int.floor_eq_iff]
    constructor <;> linarith
  · rw [Int.ceil_eq_iff]
    constructor <;> linarith

/-- Rounding keeps the sign: from zero on the result is not negative. -/
theorem roundHalfUp_nonneg {x : K} (hx : 0 ≤ x) : 0 ≤ roundHalfUp x := by
  rw [roundHalfUp, if_pos hx]
  exact Int.floor_nonneg.mpr (by linarith)

/-- Rounding keeps the sign: up to zero the result is not positive. -/
theorem roundHalfUp_nonpos {x : K} (hx : x ≤ 0) : roundHalfUp x ≤ 0 := by
  rcases hx.eq_or_lt with rfl | hneg
  · exact (by simpa using roundHalfUp_intCast (K := K) 0 : roundHalfUp (0 : K) = 0).le
  · rw [roundHalfUp, if_neg (not_le.mpr hneg)]
    exact Int.ceil_le.mpr (by push_cast; linarith)

/-- Half a unit below zero is the last number that rounds to a negative integer. -/
theorem roundHalfUp_nonneg_iff {x : K} : 0 ≤ roundHalfUp x ↔ -(1 / 2) < x := by
  rcases le_or_gt 0 x with hx | hx
  · exact iff_of_true (roundHalfUp_nonneg hx) (by linarith)
  · rw [roundHalfUp, if_neg (not_le.mpr hx), ← Int.sub_one_lt_iff, Int.lt_ceil]
    push_cast
    constructor <;> intro h <;> linarith

/-- Half a unit is the first number that rounds to a positive integer. -/
theorem roundHalfUp_pos_iff {x : K} : 0 < roundHalfUp x ↔ 1 / 2 ≤ x := by
  rcases le_or_gt 0 x with hx | hx
  · rw [roundHalfUp, if_pos hx, Int.floor_pos]
    constructor <;> intro h <;> linarith
  · exact iff_of_false (not_lt.mpr (roundHalfUp_nonpos hx.le)) (by linarith)

/-- A number rounds to less than a positive integer when it is more than one half below it. -/
theorem roundHalfUp_lt_iff {x : K} {k : ℤ} (hk : 0 < k) : roundHalfUp x < k ↔ x < k - 1 / 2 := by
  have hone : (1 : K) ≤ k := by exact_mod_cast hk
  rcases le_or_gt 0 x with hx | hx
  · rw [roundHalfUp, if_pos hx, Int.floor_lt, lt_sub_iff_add_lt]
  · exact iff_of_true ((roundHalfUp_nonpos hx.le).trans_lt hk) (by linarith)

/-- Rounding half away from zero keeps the order. -/
theorem roundHalfUp_mono {x y : K} (hxy : x ≤ y) : roundHalfUp x ≤ roundHalfUp y := by
  -- within one sign by monotonicity of floor or ceiling, across zero by the signs
  rcases le_or_gt 0 x with hx | hx
  · rw [roundHalfUp, roundHalfUp, if_pos hx, if_pos (hx.trans hxy)]
    exact Int.floor_mono (by linarith)
  · rcases le_or_gt 0 y with hy | hy
    · exact (roundHalfUp_nonpos hx.le).trans (roundHalfUp_nonneg hy)
    · rw [roundHalfUp, roundHalfUp, if_neg (not_le.mpr hx), if_neg (not_le.mpr hy)]
      exact Int.ceil_mono (by linarith)

/-- Rounding half away from zero moves a number by at most one half. -/
theorem abs_roundHalfUp_sub_le (x : K) : |(roundHalfUp x : K) - x| ≤ 1 / 2 := by
  unfold roundHalfUp
  rw [abs_le]
  split
  · constructor <;> linarith [Int.floor_le (x + 1 / 2), Int.lt_floor_add_one (x + 1 / 2)]
  · constructor <;> linarith [Int.le_ceil (x - 1 / 2), Int.ceil_lt_add_one (x - 1 / 2)]

/-- Rounding half to even leaves whole numbers alone. -/
@[simp] theorem roundHalfEven_intCast (k : ℤ) : roundHalfEven (k : K) = k := by
  simp [roundHalfEven]

/-- Zero is rounded to zero. -/
@[simp] theorem roundHalfEven_zero : roundHalfEven (0 : K) = 0 := by simp [roundHalfEven]

/-- Rounding half to even moves a number by at most one half. -/
theorem abs_roundHalfEven_sub_le (x : K) : |(roundHalfEven x : K) - x| ≤ 1 / 2 := by
  have hfract : (⌊x⌋ : K) = x - Int.fract x := (Int.self_sub_fract x).symm
  have hnonneg := Int.fract_nonneg x
  have hlt := Int.fract_lt_one x
  unfold roundHalfEven
  rw [abs_le]
  split_ifs <;> push_cast <;> constructor <;> linarith

/-- A number that is less than half a unit away from an integer is rounded to it. -/
theorem roundHalfEven_eq_of_abs_sub_lt {x : K} {k : ℤ} (h : |x - k| < 1 / 2) :
    roundHalfEven x = k := by
  obtain ⟨hlow, hhigh⟩ := abs_lt.mp h
  obtain ⟨hlow', hhigh'⟩ := abs_le.mp (abs_roundHalfEven_sub_le x)
  have hlt : (roundHalfEven x : K) < k + 1 := by linarith
  have hgt : (k : K) < roundHalfEven x + 1 := by linarith
  refine le_antisymm (Int.lt_add_one_iff.mp ?_) (Int.lt_add_one_iff.mp ?_)
  · exact_mod_cast hlt
  · exact_mod_cast hgt

omit [IsStrictOrderedRing K] in
/-- Rounding half to even keeps the sign. -/
theorem roundHalfEven_nonneg {x : K} (hx : 0 ≤ x) : 0 ≤ roundHalfEven x := by
  have hfloor := Int.floor_nonneg.mpr hx
  unfold roundHalfEven
  split_ifs <;> omega

/-- A number that is more than one half below an integer rounds to less than it. -/
theorem roundHalfEven_lt {x : K} {k : ℤ} (h : x + 1 / 2 < k) : roundHalfEven x < k := by
  have hround := (abs_le.mp (abs_roundHalfEven_sub_le x)).2
  have hlt : (roundHalfEven x : K) < k := by linarith
  exact_mod_cast hlt

/-- Two numbers are rounded out of order only if they are the same number, since each is at most
    half a unit away from what it is rounded to. -/
theorem roundHalfEven_mono {x y : K} (hxy : x ≤ y) : roundHalfEven x ≤ roundHalfEven y := by
  by_contra hnot
  have hstep : roundHalfEven y + 1 ≤ roundHalfEven x := not_le.mp hnot
  have hcast : (roundHalfEven y : K) + 1 ≤ roundHalfEven x := by exact_mod_cast hstep
  have hx := (abs_le.mp (abs_roundHalfEven_sub_le x)).2
  have hy := (abs_le.mp (abs_roundHalfEven_sub_le y)).1
  have hsame : x = y := le_antisymm hxy (by linarith)
  rw [hsame] at hnot
  exact hnot le_rfl

/-- Ties to the even neighbour are ties to the same neighbour on the other side of zero. -/
theorem roundHalfEven_neg (x : K) : roundHalfEven (-x) = -roundHalfEven x := by
  have hsplit : (⌊x⌋ : K) + Int.fract x = x := Int.floor_add_fract x
  by_cases hwhole : Int.fract x = 0
  -- a whole number has no fractional part on either side
  · rw [hwhole, add_zero] at hsplit
    rw [← hsplit, ← Int.cast_neg, roundHalfEven_intCast, roundHalfEven_intCast]
  · have hfract := Int.fract_neg hwhole
    -- the mirrored number has the other fractional part, and its floor is one lower
    have hfloor : ⌊-x⌋ = -⌊x⌋ - 1 := by
      have hsplit' : (⌊-x⌋ : K) + Int.fract (-x) = -x := Int.floor_add_fract (-x)
      have hcast : (⌊-x⌋ : K) = ((-⌊x⌋ - 1 : ℤ) : K) := by
        push_cast
        linarith
      exact_mod_cast hcast
    unfold roundHalfEven
    rw [hfract, hfloor]
    rcases lt_trichotomy (Int.fract x) (1 / 2) with hlow | hmid | hhigh
    · rw [if_neg (by linarith), if_pos (by linarith), if_pos hlow]
      ring
    · -- at the midpoint the floors of the two are of different parity
      have hmirror : 1 - Int.fract x = 1 / 2 := by linarith
      rw [hmirror, hmid]
      simp only [lt_irrefl, if_false]
      split_ifs <;> omega
    · rw [if_pos (by linarith), if_neg (by linarith), if_pos hhigh]
      ring

/-! ## Rounding to `n` digits -/

/-- Keep `n` digits after the point and drop the rest (`ROUND_DOWN`). -/
def truncateTo (n : ℕ) (x : K) : K := truncate (x * 10 ^ n) / 10 ^ n

/-- Nearest number with `n` digits after the point, ties away from zero (`ROUND_HALF_UP`). -/
def roundTo (n : ℕ) (x : K) : K := roundHalfUp (x * 10 ^ n) / 10 ^ n

omit [IsStrictOrderedRing K] in
/-- A truncated number is on the grid. -/
theorem truncateTo_mem (n : ℕ) (x : K) : truncateTo n x ∈ Grid K n := intCast_div_mem_grid _ n

omit [IsStrictOrderedRing K] in
/-- A rounded number is on the grid. -/
theorem roundTo_mem (n : ℕ) (x : K) : roundTo n x ∈ Grid K n := intCast_div_mem_grid _ n

omit [FloorRing K] in
/-- The unit of a grid is positive. -/
private theorem ten_pow_pos (n : ℕ) : (0 : K) < 10 ^ n := by positivity

omit [FloorRing K] in
/-- A number of the grid is a whole number of its units. -/
private theorem scaled_of_mem {n : ℕ} {x : K} (hx : x ∈ Grid K n) : ∃ k : ℤ, x * 10 ^ n = k := by
  obtain ⟨k, rfl⟩ := mem_grid.mp hx
  exact ⟨k, div_mul_cancel₀ _ (ten_pow_pos n).ne'⟩

/-- Rounding changes nothing on the grid. -/
theorem roundTo_of_mem {n : ℕ} {x : K} (hx : x ∈ Grid K n) : roundTo n x = x := by
  obtain ⟨k, hk⟩ := scaled_of_mem hx
  rw [roundTo, hk, roundHalfUp_intCast, ← hk]
  exact mul_div_cancel_right₀ _ (ten_pow_pos n).ne'

/-- Truncating a nonnegative number never increases it. -/
theorem truncateTo_le {n : ℕ} {x : K} (hx : 0 ≤ x) : truncateTo n x ≤ x := by
  have hscaled : 0 ≤ x * 10 ^ n := mul_nonneg hx (ten_pow_pos n).le
  rw [truncateTo, truncate_of_nonneg hscaled, div_le_iff₀ (ten_pow_pos n)]
  exact Int.floor_le _

/-- Truncating a nonnegative number finds the greatest grid point that does not exceed it. -/
theorem isGreatest_truncateTo (n : ℕ) {x : K} (hx : 0 ≤ x) :
    IsGreatest {q | q ∈ Grid K n ∧ q ≤ x} (truncateTo n x) := by
  refine ⟨⟨truncateTo_mem n x, truncateTo_le hx⟩, ?_⟩
  rintro q ⟨hq, hle⟩
  obtain ⟨k, rfl⟩ := mem_grid.mp hq
  -- in units of the last digit it is the greatest integer below
  have hk : k ≤ ⌊x * 10 ^ n⌋ := Int.le_floor.mpr ((div_le_iff₀ (ten_pow_pos n)).mp hle)
  rw [truncateTo, truncate_of_nonneg (mul_nonneg hx (ten_pow_pos n).le)]
  exact div_le_div_of_nonneg_right (by exact_mod_cast hk) (ten_pow_pos n).le

/-- Rounding to a grid moves a number by at most half a unit. -/
theorem abs_roundTo_sub_le (n : ℕ) (x : K) : |roundTo n x - x| ≤ 1 / 2 / 10 ^ n := by
  have hpos := ten_pow_pos (K := K) n
  have hdiff : roundTo n x - x = (roundHalfUp (x * 10 ^ n) - x * 10 ^ n) / 10 ^ n := by
    rw [roundTo, sub_div, mul_div_cancel_right₀ _ hpos.ne']
  rw [hdiff, abs_div, abs_of_pos hpos]
  exact div_le_div_of_nonneg_right (abs_roundHalfUp_sub_le _) hpos.le

/-- Rounding to a grid keeps the sign. -/
theorem roundTo_nonneg {n : ℕ} {x : K} (hx : 0 ≤ x) : 0 ≤ roundTo n x := by
  have hscaled : 0 ≤ x * 10 ^ n := mul_nonneg hx (ten_pow_pos n).le
  exact div_nonneg (by exact_mod_cast roundHalfUp_nonneg hscaled) (ten_pow_pos n).le

/-- What rounds to a nonnegative number is above minus half a unit of the last digit. -/
theorem roundTo_nonneg_iff {n : ℕ} {x : K} : 0 ≤ roundTo n x ↔ -(1 / 2) / 10 ^ n < x := by
  rw [roundTo, div_lt_iff₀ (ten_pow_pos n), ← roundHalfUp_nonneg_iff,
    le_div_iff₀ (ten_pow_pos n), zero_mul]
  exact Int.cast_nonneg_iff

/-- What rounds to a positive number is at least half a unit of the last digit. -/
theorem roundTo_pos_iff {n : ℕ} {x : K} : 0 < roundTo n x ↔ 1 / 2 / 10 ^ n ≤ x := by
  rw [roundTo, div_le_iff₀ (ten_pow_pos n), ← roundHalfUp_pos_iff, lt_div_iff₀ (ten_pow_pos n),
    zero_mul]
  exact Int.cast_pos

/-- A number rounds to less than a positive number of the grid when it is more than half a unit
    below it. -/
theorem roundTo_lt_iff {n : ℕ} {x y : K} (hy : y ∈ Grid K n) (hpos : 0 < y) :
    roundTo n x < y ↔ x < y - 1 / 2 / 10 ^ n := by
  obtain ⟨k, rfl⟩ := mem_grid.mp hy
  have hk : 0 < k := by
    have := mul_pos hpos (ten_pow_pos (K := K) n)
    rw [div_mul_cancel₀ _ (ten_pow_pos n).ne'] at this
    exact_mod_cast this
  rw [roundTo, div_lt_div_iff_of_pos_right (ten_pow_pos n), ← sub_div,
    lt_div_iff₀ (ten_pow_pos n), ← roundHalfUp_lt_iff hk]
  exact Int.cast_lt

/-- Rounding to a grid keeps the order. -/
theorem roundTo_mono (n : ℕ) : Monotone (roundTo n : K → K) := by
  intro x y hxy
  have hscaled := roundHalfUp_mono (mul_le_mul_of_nonneg_right hxy (ten_pow_pos (K := K) n).le)
  exact div_le_div_of_nonneg_right (by exact_mod_cast hscaled) (ten_pow_pos n).le

end FixedPoint
