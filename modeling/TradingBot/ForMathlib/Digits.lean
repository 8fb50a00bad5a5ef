import TradingBot.ForMathlib.SignificantDigits

/-!
# Numbers of few digits, there and back

A number of few digits in one base is rounded to more digits of another base. When those are
enough it is the only number of few digits that is rounded so, and it is one of the two
neighbours, in its own base, of what it is rounded to.

## Key results

- `mul_zpow_lt_abs_sub`: two different numbers of few digits are apart
- `roundSig_injOn`: they are rounded to different numbers
- `eq_floor_or_eq_ceil`: a number of few digits is next to what it is rounded to
-/

namespace FixedPoint

variable {K : Type*} [Field K] [LinearOrder K] [IsStrictOrderedRing K]

/-- The numbers of at most `p` digits in base `b`, wherever their point is. -/
def Digits (K : Type*) [Field K] (b p : ℕ) : Set K :=
  {x | ∃ m e : ℤ, x = m * (b : K) ^ e ∧ |m| < (b : ℤ) ^ p}

variable {b p : ℕ} {x y : K}

omit [LinearOrder K] [IsStrictOrderedRing K] in
/-- Fewer digits are at most more digits. -/
theorem digits_mono (hb : 1 < b) {q : ℕ} (hpq : p ≤ q) : Digits K b p ⊆ Digits K b q := by
  rintro x ⟨m, e, hx, hm⟩
  have hbase : (1 : ℤ) ≤ b := by exact_mod_cast hb.le
  exact ⟨m, e, hx, hm.trans_le (pow_le_pow_right₀ hbase hpq)⟩

/-- The first number of one digit more has few digits too: it is a power of the base. -/
theorem mul_zpow_mem_digits (hb : 1 < b) (hp : 0 < p) {k : ℤ} (hk : |k| ≤ (b : ℤ) ^ p) (e : ℤ) :
    k * (b : K) ^ e ∈ Digits K b p := by
  have hbase : (1 : ℤ) < b := by exact_mod_cast hb
  have hone : (1 : ℤ) < (b : ℤ) ^ p := one_lt_pow₀ hbase hp.ne'
  have hb0 : (b : K) ≠ 0 := by exact_mod_cast (zero_lt_one.trans hb).ne'
  rcases hk.lt_or_eq with hlt | heq
  · exact ⟨k, e, rfl, hlt⟩
  · have hshift : ((b : ℤ) ^ p : ℤ) * (b : K) ^ e = (b : K) ^ (p + e) := by
      rw [zpow_add₀ hb0, zpow_natCast]
      push_cast
      rfl
    rcases (abs_eq (by positivity)).mp heq with rfl | rfl
    · exact ⟨1, p + e, by rw [hshift, Int.cast_one, one_mul], by rwa [abs_one]⟩
    · refine ⟨-1, p + e, ?_, by rwa [abs_neg, abs_one]⟩
      rw [Int.cast_neg, neg_mul, hshift, Int.cast_neg, Int.cast_one, neg_one_mul]

/-- A number on a grid has as many digits as its units count. -/
theorem mem_digits_of_grid {n : ℕ} (hp : 0 < p) (hx : x ∈ Grid K n)
    (hle : |x| * 10 ^ n ≤ 10 ^ p) : x ∈ Digits K 10 p := by
  obtain ⟨k, rfl⟩ := mem_grid.mp hx
  have hpos : (0 : K) < 10 ^ n := by positivity
  rw [abs_div, abs_of_pos hpos, div_mul_cancel₀ _ hpos.ne', ← Int.cast_abs] at hle
  have hunits := mul_zpow_mem_digits (K := K) (by norm_num : 1 < 10) hp
    (k := k) (by exact_mod_cast hle) (-n)
  rwa [zpow_neg, zpow_natCast, ← div_eq_mul_inv, Nat.cast_ofNat] at hunits

/-! ## Distances -/

/-- A number that is given in a unit is at least one such unit away from a coarser one. -/
private theorem zpow_le_abs_sub (hb : 1 < b) {m n e f : ℤ} (hef : e ≤ f)
    (hne : (m * (b : K) ^ e : K) ≠ n * (b : K) ^ f) :
    (b : K) ^ e ≤ |m * (b : K) ^ e - n * (b : K) ^ f| := by
  have hb0 : (b : K) ≠ 0 := by exact_mod_cast (zero_lt_one.trans hb).ne'
  have hunit : (0 : K) < (b : K) ^ e := zpow_pos (by exact_mod_cast zero_lt_one.trans hb) e
  obtain ⟨i, rfl⟩ : ∃ i : ℕ, f = e + i := ⟨(f - e).toNat, by omega⟩
  have hdiff : m * (b : K) ^ e - n * (b : K) ^ (e + i) =
      ((m - n * (b : ℤ) ^ i : ℤ) : K) * (b : K) ^ e := by
    rw [zpow_add₀ hb0, zpow_natCast]
    push_cast
    ring
  have hunits : m - n * (b : ℤ) ^ i ≠ 0 := by
    intro hzero
    rw [hzero, Int.cast_zero, zero_mul] at hdiff
    exact hne (sub_eq_zero.mp hdiff)
  rw [hdiff, abs_mul, abs_of_pos hunit, ← Int.cast_abs]
  exact le_mul_of_one_le_left hunit.le (by exact_mod_cast Int.one_le_abs hunits)

/-- A number of some digits is below the power that has one digit more. -/
private theorem abs_mul_zpow_lt (hb : 1 < b) {m e : ℤ} (hm : |m| < (b : ℤ) ^ p) :
    |m * (b : K) ^ e| < (b : K) ^ p * (b : K) ^ e := by
  have hunit : (0 : K) < (b : K) ^ e := zpow_pos (by exact_mod_cast zero_lt_one.trans hb) e
  rw [abs_mul, abs_of_pos hunit, ← Int.cast_abs]
  exact mul_lt_mul_of_pos_right (by exact_mod_cast hm) hunit

/-- Two different numbers of few digits are further apart than the last digit of one of them. -/
theorem min_abs_lt_mul_abs_sub (hb : 1 < b) (hx : x ∈ Digits K b p) (hy : y ∈ Digits K b p)
    (hne : x ≠ y) : min |x| |y| < (b : K) ^ p * |x - y| := by
  obtain ⟨m, e, rfl, hm⟩ := hx
  obtain ⟨n, f, rfl, hn⟩ := hy
  -- the one with the finer unit
  rcases le_total e f with hef | hfe
  · calc min |m * (b : K) ^ e| |n * (b : K) ^ f| ≤ |m * (b : K) ^ e| := min_le_left _ _
      _ < (b : K) ^ p * (b : K) ^ e := abs_mul_zpow_lt hb hm
      _ ≤ (b : K) ^ p * |m * (b : K) ^ e - n * (b : K) ^ f| :=
        mul_le_mul_of_nonneg_left (zpow_le_abs_sub hb hef hne) (by positivity)
  · calc min |m * (b : K) ^ e| |n * (b : K) ^ f| ≤ |n * (b : K) ^ f| := min_le_right _ _
      _ < (b : K) ^ p * (b : K) ^ f := abs_mul_zpow_lt hb hn
      _ ≤ (b : K) ^ p * |m * (b : K) ^ e - n * (b : K) ^ f| := by
        rw [abs_sub_comm]
        exact mul_le_mul_of_nonneg_left (zpow_le_abs_sub hb hfe hne.symm) (by positivity)

/-! ## The neighbours with few digits -/

variable [FloorRing K]

/-- A number is below the power of the base that follows its first digit. -/
theorem abs_lt_mul_unitLastDigit (hb : 1 < b) (x : K) :
    |x| < (b : K) ^ p * unitLastDigit b p x := by
  have hb0 : (b : K) ≠ 0 := by exact_mod_cast (zero_lt_one.trans hb).ne'
  have hnext : (b : K) ^ p * unitLastDigit b p x = (b : K) ^ (Int.log b |x| + 1) := by
    rw [unitLastDigit, ← zpow_natCast, ← zpow_add₀ hb0]
    congr 1
    omega
  rw [hnext]
  exact Int.lt_zpow_succ_log_self hb |x|

/-- Whole units of the last of `p` digits that are next to a number have at most `p` digits. -/
theorem floor_mul_unitLastDigit_mem (hb : 1 < b) (hp : 0 < p) (x : K) :
    ⌊x / unitLastDigit b p x⌋ * unitLastDigit b p x ∈ Digits K b p ∧
      ⌈x / unitLastDigit b p x⌉ * unitLastDigit b p x ∈ Digits K b p := by
  have hunit := unitLastDigit_pos (p := p) (x := x) hb
  have hlt := abs_lt_mul_unitLastDigit (p := p) hb x
  rw [← div_lt_iff₀ hunit, ← abs_of_pos hunit, ← abs_div, abs_lt] at hlt
  obtain ⟨hlow, hhigh⟩ := hlt
  -- both neighbours are at most the power of the base, which itself needs one digit only
  have hfloor : |⌊x / unitLastDigit b p x⌋| ≤ (b : ℤ) ^ p := by
    rw [abs_le, Int.le_floor]
    push_cast
    refine ⟨hlow.le, ?_⟩
    have hle := (Int.floor_le (x / unitLastDigit b p x)).trans hhigh.le
    exact_mod_cast hle
  have hceil : |⌈x / unitLastDigit b p x⌉| ≤ (b : ℤ) ^ p := by
    rw [abs_le, Int.ceil_le]
    push_cast
    refine ⟨?_, hhigh.le⟩
    have hle := hlow.le.trans (Int.le_ceil (x / unitLastDigit b p x))
    exact_mod_cast hle
  exact ⟨mul_zpow_mem_digits hb hp hfloor _, mul_zpow_mem_digits hb hp hceil _⟩

/-! ## Rounding to another base -/

variable {B q : ℕ}

/-- The error of rounding, over a common denominator. -/
private theorem two_mul_abs_roundSig_sub_le (hB : 1 < B) (x : K) :
    2 * (B : K) ^ q * |roundSig B (q + 1) x - x| ≤ |x| := by
  have hpos : (0 : K) < (B : K) ^ q := pow_pos (by exact_mod_cast zero_lt_one.trans hB) q
  have herror := abs_roundSig_sub_le (p := q + 1) hB x
  have hunit : (1 - ((q + 1 : ℕ) : ℤ) : ℤ) = -(q : ℤ) := by omega
  rw [hunit, zpow_neg, zpow_natCast, ← div_eq_mul_inv, div_div, le_div_iff₀ (by positivity)]
    at herror
  calc 2 * (B : K) ^ q * |roundSig B (q + 1) x - x|
      = |roundSig B (q + 1) x - x| * ((B : K) ^ q * 2) := by ring
    _ ≤ |x| := herror

/-- Numbers of few digits are told apart by more digits of another base. -/
theorem roundSig_injOn (hb : 1 < b) (hB : 1 < B) (hbB : b ^ p < B ^ q) :
    Set.InjOn (roundSig B (q + 1)) (Digits K b p) := by
  intro x hx y hy hround
  by_contra hne
  have hgap := min_abs_lt_mul_abs_sub hb hx hy hne
  have hxerror := two_mul_abs_roundSig_sub_le (q := q) hB x
  have hyerror := two_mul_abs_roundSig_sub_le (q := q) hB y
  rw [hround, abs_sub_comm] at hxerror
  have hroom : (b : K) ^ p + 1 ≤ (B : K) ^ q := by exact_mod_cast hbB
  have hdist : 0 < |x - y| := abs_pos.mpr (sub_ne_zero.mpr hne)
  have htriangle := abs_sub_le x (roundSig B (q + 1) y) y
  have hpos : (0 : K) < (B : K) ^ q := pow_pos (by exact_mod_cast zero_lt_one.trans hB) q
  -- both errors are small against the smaller of the two numbers
  have hsum : |x| + |y| ≤ 2 * min |x| |y| + |x - y| := by
    have hdiff := abs_abs_sub_abs_le_abs_sub x y
    rcases le_total |x| |y| with hle | hle
    · rw [min_eq_left hle]
      linarith [(abs_le.mp hdiff).1]
    · rw [min_eq_right hle]
      linarith [(abs_le.mp hdiff).2]
  have herrors : 2 * (B : K) ^ q * |x - y| ≤ |x| + |y| :=
    (mul_le_mul_of_nonneg_left htriangle (by positivity)).trans (by linarith)
  have hscaled := mul_le_mul_of_nonneg_right hroom hdist.le
  linarith

/-- The error is less than one part in `b ^ p`, and then some. -/
private theorem two_mul_add_one_mul_abs_roundSig_sub_le (hB : 1 < B) (hbB : b ^ p < B ^ q)
    (x : K) : 2 * ((b : K) ^ p + 1) * |roundSig B (q + 1) x - x| ≤ |x| := by
  have hroom : (b : K) ^ p + 1 ≤ (B : K) ^ q := by exact_mod_cast hbB
  refine le_trans ?_ (two_mul_abs_roundSig_sub_le (q := q) hB x)
  gcongr

/-- A number with room for its digits is not rounded to zero. -/
private theorem roundSig_ne_zero (hB : 1 < B) (hbB : b ^ p < B ^ q) (hx0 : x ≠ 0) :
    roundSig B (q + 1) x ≠ 0 := by
  intro hzero
  have herror := two_mul_add_one_mul_abs_roundSig_sub_le hB hbB x
  rw [hzero, zero_sub, abs_neg] at herror
  have hxpos : 0 < |x| := abs_pos.mpr hx0
  have hpow : 0 ≤ (b : K) ^ p * |x| := by positivity
  linarith

/-- The last digit of what a number of few digits is rounded to is not before the last digit of
    the number: it is not rounded beyond the next power of the base. -/
private theorem log_roundSig_le (hb : 1 < b) (hB : 1 < B) (hbB : b ^ p < B ^ q) {m e : ℤ}
    (hm : |m| < (b : ℤ) ^ p) (hr0 : roundSig B (q + 1) (m * (b : K) ^ e) ≠ 0) :
    Int.log b |roundSig B (q + 1) (m * (b : K) ^ e)| - (p - 1 : ℤ) ≤ e := by
  have hbpos : (0 : K) < b := by exact_mod_cast zero_lt_one.trans hb
  have hpow : (0 : K) < (b : K) ^ p := pow_pos hbpos p
  have hunit : (0 : K) < (b : K) ^ e := zpow_pos hbpos e
  have herror := two_mul_add_one_mul_abs_roundSig_sub_le hB hbB (m * (b : K) ^ e)
  have hlow := Int.zpow_log_le_self (R := K) hb (abs_pos.mpr hr0)
  set r := roundSig B (q + 1) (m * (b : K) ^ e)
  have hsize := (abs_le.mp (abs_abs_sub_abs_le_abs_sub r (m * (b : K) ^ e))).2
  rw [abs_mul, abs_of_pos hunit, ← Int.cast_abs] at herror hsize
  by_contra hlt
  have hbig : (b : K) ^ p * (b : K) ^ e ≤ |r| := by
    rw [← zpow_natCast, ← zpow_add₀ hbpos.ne']
    exact (zpow_le_zpow_right₀ (by exact_mod_cast hb.le) (by omega)).trans hlow
  have hbelow : ((|m| : ℤ) + 1 : K) * (b : K) ^ e ≤ (b : K) ^ p * (b : K) ^ e :=
    mul_le_mul_of_nonneg_right (by exact_mod_cast hm) hunit.le
  -- the rounding would have gone a whole unit up
  have hup : (b : K) ^ e ≤ |r - m * (b : K) ^ e| := by linarith
  have hscaled := mul_le_mul_of_nonneg_left hup hpow.le
  have hpos := mul_pos hpow hunit
  linarith

/-- A number of few digits is less than a unit of the last digit away from what it is rounded
    to. -/
private theorem abs_roundSig_sub_lt_unitLastDigit (hb : 1 < b) (hB : 1 < B) (hbB : b ^ p < B ^ q)
    (x : K) : |roundSig B (q + 1) x - x| < unitLastDigit b p (roundSig B (q + 1) x) := by
  have hbpos : (0 : K) < b := by exact_mod_cast zero_lt_one.trans hb
  have hpow : (0 : K) < (b : K) ^ p := pow_pos hbpos p
  have herror := two_mul_add_one_mul_abs_roundSig_sub_le hB hbB x
  set r := roundSig B (q + 1) x
  have hsize := (abs_le.mp (abs_abs_sub_abs_le_abs_sub r x)).1
  have hdist : 0 ≤ (b : K) ^ p * |r - x| := by positivity
  have hhigh := abs_lt_mul_unitLastDigit (p := p) hb r
  exact lt_of_mul_lt_mul_left (by linarith [abs_nonneg (r - x)]) hpow.le

/-- A number of few digits is one of the two neighbours of what it is rounded to. -/
theorem eq_floor_or_eq_ceil (hb : 1 < b) (hB : 1 < B) (hbB : b ^ p < B ^ q)
    (hx : x ∈ Digits K b p) (hx0 : x ≠ 0) {r u : K} (hr : r = roundSig B (q + 1) x)
    (hu : u = unitLastDigit b p r) : x = ⌊r / u⌋ * u ∨ x = ⌈r / u⌉ * u := by
  subst hr hu
  have hnear := abs_roundSig_sub_lt_unitLastDigit hb hB hbB x
  have hbpos : (0 : K) < b := by exact_mod_cast zero_lt_one.trans hb
  have hunit := unitLastDigit_pos (p := p) (x := roundSig B (q + 1) x) hb
  -- the number is a whole number of units: its own last digit is no finer
  obtain ⟨k, hk⟩ : ∃ k : ℤ, x = k * unitLastDigit b p (roundSig B (q + 1) x) := by
    obtain ⟨m, e, rfl, hm⟩ := hx
    have hle := log_roundSig_le hb hB hbB hm (roundSig_ne_zero hB hbB hx0)
    obtain ⟨i, hi⟩ := Int.le.dest hle
    refine ⟨m * (b : ℤ) ^ i, ?_⟩
    rw [unitLastDigit]
    nth_rewrite 1 [← hi]
    rw [zpow_add₀ hbpos.ne', zpow_natCast]
    push_cast
    ring
  set r := roundSig B (q + 1) x
  set u := unitLastDigit b p r
  -- less than one unit lies between the two
  have hclose : |r / u - k| < 1 := by
    have hdiff : r / u - k = (r - x) / u := by
      rw [hk, sub_div, mul_div_cancel_right₀ _ hunit.ne']
    rwa [hdiff, abs_div, abs_of_pos hunit, div_lt_one hunit]
  rw [abs_lt] at hclose
  rcases le_total (k : K) (r / u) with hle | hle
  · have hfloor : ⌊r / u⌋ = k := Int.floor_eq_iff.mpr ⟨hle, by linarith⟩
    exact .inl (by rw [hfloor]; exact hk)
  · have hceil : ⌈r / u⌉ = k := Int.ceil_eq_iff.mpr ⟨by linarith, hle⟩
    exact .inr (by rw [hceil]; exact hk)

end FixedPoint
