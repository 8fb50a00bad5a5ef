import TradingBot.ForMathlib.Digits
import TradingBot.Python.Float

/-!
# Decimals through floats

A decimal of at most 15 digits that is read as a float is written again as it was: no other
decimal that is as short reads as the same float. With 16 digits this no longer holds, nor among
the smallest floats, which have fewer digits.
-/

namespace Python

open FixedPoint

/-- The decimals of at most 15 digits that are neither too small for a normal float nor too large
    for any. -/
def ShortDecimals : Set ℚ :=
  {d | d ∈ Digits ℚ 10 15 ∧ (d = 0 ∨ 10 ^ (-300 : ℤ) ≤ |d| ∧ |d| ≤ 10 ^ 300)}

variable {x d : ℚ} {p : ℕ}

/-- Short decimals are far above the smallest float that has all its digits. -/
private theorem two_zpow_lt_ten_zpow :
    (2 : ℚ) ^ (-1022 : ℤ) < 1 / 4 * 10 ^ (-300 : ℤ) := by decide +kernel

/-- A number in the range of `ShortDecimals` is in that of the normal floats. -/
private theorem two_zpow_le_abs (h : 10 ^ (-300 : ℤ) ≤ |d|) : 2 ^ (-1022 : ℤ) ≤ |d| := by
  linarith [two_zpow_lt_ten_zpow, abs_nonneg d]

/-- So is its float. -/
private theorem two_zpow_lt_abs_float (h : 10 ^ (-300 : ℤ) ≤ |d|) :
    2 ^ (-1022 : ℤ) < |float d| := by
  have herror := abs_float_sub_le d
  rw [abs_sub_comm] at herror
  linarith [abs_sub_abs_le_abs_sub d (float d), abs_nonneg d, two_zpow_lt, two_zpow_lt_ten_zpow]

/-- Decimals that are read as the same normal float are the same, if they have few digits. -/
private theorem eq_of_float_eq {c : ℚ} (hc : c ∈ Digits ℚ 10 15) (hd : d ∈ Digits ℚ 10 15)
    (hrange : 10 ^ (-300 : ℤ) ≤ |d|) (heq : float c = float d) : c = d := by
  have hnormal := two_zpow_lt_abs_float hrange
  -- what is too small for a normal float reads as no larger one
  have hc' : (2 : ℚ) ^ (-1022 : ℤ) ≤ |c| := by
    by_contra hsmall
    have hle := abs_roundGradual_le (p := 53) (e := -1074) (by norm_num : 1 < 2) (by norm_num)
      (lt_of_not_ge hsmall)
    exact hnormal.not_ge (heq ▸ hle)
  rw [float_eq_roundSig hc', float_eq_roundSig (two_zpow_le_abs hrange)] at heq
  exact roundSig_injOn (q := 52) (by norm_num) (by norm_num) (by norm_num) hc hd heq

/-- What is written with `p` digits reads as the float. -/
private theorem decimalOfDigits_spec (hp : 0 < p) (h : decimalOfDigits x p = some d) :
    float d = x ∧ d ∈ Digits ℚ 10 p := by
  have hneighbours := floor_mul_unitLastDigit_mem (by norm_num : 1 < 10) hp x
  unfold decimalOfDigits at h
  dsimp only at h
  refine ⟨of_decide_eq_true (List.find?_some (p := fun c => decide (float c = x)) h), ?_⟩
  have hmem := List.mem_of_find?_eq_some h
  split at hmem
  next =>
    rcases List.mem_pair.mp hmem with rfl | rfl
    exacts [hneighbours.1, hneighbours.2]
  next =>
    rcases List.mem_pair.mp hmem with rfl | rfl
    exacts [hneighbours.2, hneighbours.1]

/-- Fifteen digits are enough to write the float of a decimal of as many. -/
private theorem isSome_decimalOfDigits (hd : d ∈ Digits ℚ 10 15)
    (hrange : 10 ^ (-300 : ℤ) ≤ |d|) : (decimalOfDigits (float d) 15).isSome := by
  have hd0 : d ≠ 0 := abs_pos.mp ((zpow_pos (by norm_num) _).trans_le hrange)
  have hneighbour := eq_floor_or_eq_ceil (q := 52) (by norm_num) (by norm_num) (by norm_num) hd hd0
    (r := float d) (float_eq_roundSig (two_zpow_le_abs hrange)) rfl
  unfold decimalOfDigits
  dsimp only
  rw [List.find?_isSome]
  refine ⟨d, ?_, decide_eq_true rfl⟩
  split <;> rw [List.mem_pair]
  · exact hneighbour
  · exact hneighbour.symm

/-- A decimal of at most 15 digits is written as it was read. -/
theorem strFloat_float (h : d ∈ ShortDecimals) : strFloat (float d) = d := by
  obtain ⟨hd, rfl | ⟨hrange, -⟩⟩ := h
  · decide +kernel
  · -- the search ends before more than 15 digits are tried
    have hsplit : List.range' 1 17 = List.range' 1 15 ++ [16, 17] := rfl
    obtain ⟨found, hfound⟩ : ∃ found,
        (List.range' 1 15).findSome? (decimalOfDigits (float d)) = some found := by
      rw [← Option.isSome_iff_exists, List.findSome?_isSome_iff]
      exact ⟨15, by decide, isSome_decimalOfDigits hd hrange⟩
    have hstr : strFloat (float d) = found := by
      rw [strFloat, hsplit, List.findSome?_append, hfound, Option.some_or, Option.getD_some]
    obtain ⟨p, hmem, hp⟩ := List.exists_of_findSome?_eq_some hfound
    rw [List.mem_range'_1] at hmem
    -- what is found reads as the same float, so it is the decimal itself
    obtain ⟨hread, hdigits⟩ := decimalOfDigits_spec (by omega) hp
    rw [hstr]
    exact eq_of_float_eq (digits_mono (by norm_num) (by omega) hdigits) hd hrange hread

/-- With 16 digits two decimals may read as the same float. -/
example : float 9007199254740993 = float 9007199254740992 ∧
    strFloat (float 9007199254740993) = 9007199254740992 := by decide +kernel

end Python
