import Mathlib.Algebra.Order.Group.Defs
import Mathlib.Algebra.Group.Pi.Basic
import Mathlib.Algebra.Order.Group.Unbundled.Basic
import Mathlib.Data.Nat.Find

/-!
# Crossings of zero by a sequence

A sequence rises through zero at a step that ends above zero and did not start there, and
falls through it at a step that ends below and did not start there. Both tests accept a
step that starts at zero, and therefore two rises can follow each other without a fall
between them. `rises_alternate_iff` says when: the sequence came down to zero from above,
stayed there for a while, and left upwards again.
-/

/-- The last index up to a bound at which something holds. -/
theorem Nat.exists_last {P : ℕ → Prop} {a b : ℕ} (hab : a ≤ b) (ha : P a) :
    ∃ l, a ≤ l ∧ l ≤ b ∧ P l ∧ ∀ k, l < k → k ≤ b → ¬P k := by
  induction b, hab using Nat.le_induction with
  | base => exact ⟨a, le_rfl, le_rfl, ha, fun k hk hle => absurd hle hk.not_ge⟩
  | succ b hab ih =>
    by_cases hb : P (b + 1)
    · exact ⟨b + 1, hab.trans b.le_succ, le_rfl, hb, fun k hk hle => absurd hle hk.not_ge⟩
    · obtain ⟨l, hal, hlb, hl, hlast⟩ := ih
      refine ⟨l, hal, hlb.trans b.le_succ, hl, fun k hk hle => ?_⟩
      rcases hle.eq_or_lt with rfl | hlt
      · exact hb
      · exact hlast k hk (Nat.lt_succ_iff.mp hlt)

variable {K : Type*} [AddCommGroup K] [LinearOrder K]

/-- The step from `k` ends above zero and does not start there. -/
def RisesAt (d : ℕ → K) (k : ℕ) : Prop := d k ≤ 0 ∧ 0 < d (k + 1)

/-- The step from `k` ends below zero and does not start there. -/
def FallsAt (d : ℕ → K) (k : ℕ) : Prop := 0 ≤ d k ∧ d (k + 1) < 0

instance (d : ℕ → K) (k : ℕ) : Decidable (RisesAt d k) := inferInstanceAs (Decidable (_ ∧ _))

instance (d : ℕ → K) (k : ℕ) : Decidable (FallsAt d k) := inferInstanceAs (Decidable (_ ∧ _))

/-- Between `a` and `b` the sequence gets above zero, comes down to zero, and leaves it
    upwards without having been below. -/
def TouchesFromAbove (d : ℕ → K) (a b : ℕ) : Prop :=
  ∃ m i j, a ≤ m ∧ m < i ∧ i + 1 < j ∧ j ≤ b ∧ d m ≤ 0 ∧ 0 < d i ∧
    (∀ k, i < k → k < j → d k = 0) ∧ 0 < d j

/-- Between `a` and `b` the sequence gets below zero, comes up to zero, and leaves it
    downwards without having been above. -/
def TouchesFromBelow (d : ℕ → K) (a b : ℕ) : Prop := TouchesFromAbove (-d) a b

variable {d : ℕ → K} {a b : ℕ}

/-- What is above zero, and was not, rose through it and stayed above since. -/
theorem exists_rise {m i : ℕ} (hmi : m < i) (hm : d m ≤ 0) (hi : 0 < d i) :
    ∃ r, m ≤ r ∧ r < i ∧ RisesAt d r ∧ ∀ k, r < k → k ≤ i → 0 < d k := by
  obtain ⟨r, hmr, hri, hr, hlast⟩ := Nat.exists_last (P := fun k => d k ≤ 0) hmi.le hm
  have hne : r ≠ i := by
    rintro rfl
    exact hr.not_gt hi
  have hlt : r < i := lt_of_le_of_ne hri hne
  have habove : ∀ k, r < k → k ≤ i → 0 < d k := fun k hk hki => not_le.mp (hlast k hk hki)
  exact ⟨r, hmr, hlt, ⟨hr, habove (r + 1) r.lt_succ_self hlt⟩, habove⟩

/-- What rose through zero is not below it before it falls. -/
theorem nonneg_of_no_fall {i j : ℕ} (hi : RisesAt d i)
    (hnone : ∀ k, i < k → k < j → ¬FallsAt d k) {k : ℕ} (hik : i < k) (hkj : k ≤ j) : 0 ≤ d k := by
  induction k, hik using Nat.le_induction with
  | base => exact hi.2.le
  | succ k hik ih =>
    have hk := ih (k.le_succ.trans hkj)
    exact not_lt.mp fun hneg => hnone k hik hkj ⟨hk, hneg⟩

/-- Between two rises there is a fall, unless the sequence touches zero from above. -/
theorem rises_alternate_iff :
    (∀ i j, a ≤ i → i < j → j < b → RisesAt d i → RisesAt d j →
      ∃ k, i < k ∧ k < j ∧ FallsAt d k) ↔ ¬TouchesFromAbove d a b := by
  constructor
  · rintro halternate ⟨m, i, j, ham, hmi, hij, hjb, hm, hi, hzero, hj⟩
    obtain ⟨r, hmr, hri, hrise, habove⟩ := exists_rise hmi hm hi
    -- the step that leaves zero is a rise, and nothing fell since the one before `i`
    obtain ⟨l, rfl⟩ : ∃ l, j = l + 1 := ⟨j - 1, by omega⟩
    have hl : RisesAt d l := ⟨(hzero l (by omega) (by omega)).le, hj⟩
    obtain ⟨k, hrk, hkl, -, hfall⟩ := halternate r l (by omega) (by omega) (by omega) hrise hl
    rcases le_or_gt (k + 1) i with hki | hik
    · exact hfall.not_gt (habove (k + 1) (by omega) hki)
    · exact hfall.ne (hzero (k + 1) hik (by omega))
  · intro htouch i j hai hij hjb hi hj
    by_contra hnone
    have hnone : ∀ k, i < k → k < j → ¬FallsAt d k :=
      fun k hik hkj hfall => hnone ⟨k, hik, hkj, hfall⟩
    -- the last index above zero before the second rise
    obtain ⟨p, hip, hpj, hp, hlast⟩ := Nat.exists_last (P := fun k => 0 < d k) hij hi.2
    have hne : p ≠ j := by
      rintro rfl
      exact hj.1.not_gt hp
    refine htouch ⟨i, p, j + 1, hai, hip, by omega, hjb, hi.1, hp, fun k hpk hkj => ?_, hj.2⟩
    have hkj : k ≤ j := Nat.lt_succ_iff.mp hkj
    exact le_antisymm (not_lt.mp (hlast k hpk hkj))
      (nonneg_of_no_fall hi hnone (lt_trans hip hpk) hkj)

/-! ## The mirrored sequence -/

variable [IsOrderedAddMonoid K]

/-- A mirrored sequence rises where the sequence falls. -/
theorem risesAt_neg {k : ℕ} : RisesAt (-d) k ↔ FallsAt d k := by
  simp only [RisesAt, FallsAt, Pi.neg_apply, Left.neg_nonpos_iff, Left.neg_pos_iff]

/-- A mirrored sequence falls where the sequence rises. -/
theorem fallsAt_neg {k : ℕ} : FallsAt (-d) k ↔ RisesAt d k := by
  simp only [RisesAt, FallsAt, Pi.neg_apply, Left.nonneg_neg_iff, Left.neg_neg_iff]

/-- Between two falls there is a rise, unless the sequence touches zero from below. -/
theorem falls_alternate_iff :
    (∀ i j, a ≤ i → i < j → j < b → FallsAt d i → FallsAt d j →
      ∃ k, i < k ∧ k < j ∧ RisesAt d k) ↔ ¬TouchesFromBelow d a b := by
  simp only [← risesAt_neg (d := d), ← fallsAt_neg (d := d)]
  exact rises_alternate_iff
