import TradingBot.ForMathlib.AverageCost

/-!
# Averages that are rounded after every trade

Whoever stores the average price of a lot between two trades may have to round it. A purchase
averages the error away in part, so the errors of a history add up to at most one rounding for
each purchase since nothing was held. And rounding that keeps the order and the prices paid
never takes the average out of their range.

## Key results

- `Carried.abs_average_sub_le`: the error that is carried
- `Carried.mem_range`: the average that is carried stays between the prices paid
-/

variable {K : Type*} [Field K] [LinearOrder K] [IsStrictOrderedRing K]

/-- Whether a trade is a purchase. -/
def Trade.isBuy : Trade K → Bool
  | buy _ => true
  | sell _ => false

namespace Lot

/-- The average that is carried on after a trade, from one that may have been rounded. -/
def averageAfter (round : K → K) (l : Lot K) (average : K) : Trade K → K
  | .buy d => round ((l.quantity * average + d.quantity * d.price) / (l.quantity + d.quantity))
  | .sell d => if 0 < l.quantity - d.quantity then average else 0

/-- The lot after a history that started empty, and the average that is carried beside it. -/
inductive Carried (round : K → K) : List (Trade K) → Lot K → K → Prop
  | nil : Carried round [] flat 0
  | snoc {ts : List (Trade K)} {l m : Lot K} {average : K} {t : Trade K} :
      Carried round ts l average → l.after t = some m →
      Carried round (ts ++ [t]) m (averageAfter round l average t)

/-- The trades since nothing was held. -/
def SinceFlat (ts since : List (Trade K)) : Prop :=
  ∃ before l, ts = before ++ since ∧ (flat : Lot K).run before = some l ∧ l.quantity = 0

/-- The number of purchases in a history. -/
def purchases (ts : List (Trade K)) : ℕ := ts.countP Trade.isBuy

variable {round : K → K} {ts since : List (Trade K)} {l m : Lot K} {average : K} {t : Trade K}

omit [IsStrictOrderedRing K] in
/-- One more purchase. -/
theorem purchases_concat_buy (ts : List (Trade K)) (d : Deal K) :
    purchases (ts ++ [.buy d]) = purchases ts + 1 := by
  simp [purchases, Trade.isBuy]

omit [IsStrictOrderedRing K] in
/-- A sale is no purchase. -/
theorem purchases_concat_sell (ts : List (Trade K)) (d : Deal K) :
    purchases (ts ++ [.sell d]) = purchases ts := by
  simp [purchases, Trade.isBuy]

/-- A lot that is not empty after a trade was not empty since that of the shorter history. -/
theorem SinceFlat.of_concat (h : SinceFlat (ts ++ [t]) since)
    (hm : (flat : Lot K).run (ts ++ [t]) = some m) (hheld : 0 < m.quantity) :
    ∃ earlier, since = earlier ++ [t] ∧ SinceFlat ts earlier := by
  obtain ⟨before, l, hsplit, hl, hflat⟩ := h
  rcases List.eq_nil_or_concat since with rfl | ⟨earlier, last, rfl⟩
  · -- the moment would be that of the whole history
    rw [List.append_nil] at hsplit
    subst hsplit
    cases hl.symm.trans hm
    exact absurd hflat hheld.ne'
  · rw [List.concat_eq_append, ← List.append_assoc] at hsplit
    obtain ⟨rfl, hlast⟩ := List.append_inj' hsplit rfl
    cases List.singleton_inj.mp hlast
    exact ⟨earlier, List.concat_eq_append, before, l, rfl, hl, hflat⟩

namespace Carried

/-- A carried lot is the one that the trades make. -/
theorem run_eq (h : Carried round ts l average) : (flat : Lot K).run ts = some l := by
  induction h with
  | nil => rfl
  | snoc _ ht ih =>
    rw [run_append, ih, Option.bind_some, run_cons, ht]
    rfl

/-- An empty lot carries no average. -/
theorem eq_zero (h : Carried round ts l average) (hflat : l.quantity = 0) : average = 0 := by
  cases h with
  | nil => rfl
  | @snoc ts k m a t hk ht =>
    cases t with
    | buy d =>
      cases ht
      exact absurd hflat (k.quantity_buy_pos d).ne'
    | sell d =>
      obtain ⟨hle, rfl⟩ := after_sell ht
      exact if_neg hflat.not_gt

/-- A purchase does not add to the error of the average it starts from. -/
theorem abs_buy_sub_le (l : Lot K) (average : K) (d : Deal K) :
    |(l.quantity * average + d.quantity * d.price) / (l.quantity + d.quantity) -
        (l.buy d).average| ≤ |average - l.average| := by
  have hquantity := l.quantity_nonneg
  have hpos : 0 < l.quantity + d.quantity := l.quantity_buy_pos d
  have hshare : l.quantity / (l.quantity + d.quantity) ≤ 1 :=
    (div_le_one hpos).mpr (le_add_of_nonneg_right d.quantity_pos.le)
  have hdiff : (l.quantity * average + d.quantity * d.price) / (l.quantity + d.quantity) -
      (l.buy d).average = l.quantity / (l.quantity + d.quantity) * (average - l.average) := by
    show _ - (l.quantity * l.average + d.quantity * d.price) / (l.quantity + d.quantity) = _
    ring
  rw [hdiff, abs_mul, abs_of_nonneg (div_nonneg hquantity hpos.le)]
  exact mul_le_of_le_one_left (abs_nonneg _) hshare

/-- The average that is carried is off by at most one rounding for each purchase since
    nothing was held. -/
theorem abs_average_sub_le {error : K} (hround : ∀ x, |round x - x| ≤ error)
    (h : Carried round ts l average) (hsince : SinceFlat ts since) :
    |average - l.average| ≤ purchases since * error := by
  have herror : 0 ≤ error := (abs_nonneg _).trans (hround 0)
  induction h generalizing since with
  | nil =>
    simp only [flat, sub_zero, abs_zero]
    positivity
  | @snoc ts k m a t hk ht ih =>
    have hrun := (hk.snoc ht).run_eq
    -- a flat lot has no average on either side
    rcases m.quantity_nonneg.eq_or_lt with hflat | hheld
    · rw [(hk.snoc ht).eq_zero hflat.symm, m.average_flat hflat.symm, sub_zero, abs_zero]
      positivity
    -- a lot that is held was held before, or has just been bought
    · obtain ⟨earlier, rfl, hearlier⟩ := hsince.of_concat hrun hheld
      have hbefore := ih hearlier
      cases t with
      | buy d =>
        cases ht
        rw [purchases_concat_buy, Nat.cast_succ, add_mul, one_mul, add_comm]
        -- the purchase brings one rounding, and shrinks the error there was
        exact (abs_sub_le _ _ _).trans
          (add_le_add (hround _) ((abs_buy_sub_le k a d).trans hbefore))
      | sell d =>
        obtain ⟨hle, rfl⟩ := after_sell ht
        have hkept : (k.sell d hle).average = k.average := if_pos hheld
        have hcarried : averageAfter round k a (.sell d) = a := if_pos hheld
        rw [hcarried, hkept, purchases_concat_sell]
        exact hbefore

/-- Rounding that keeps the order and the prices paid keeps the average between them. -/
theorem mem_range (hmono : Monotone round) {lo hi : K} (hlo : round lo = lo) (hhi : round hi = hi)
    (h : Carried round ts l average) (hsince : SinceFlat ts since)
    (hpaid : ∀ price ∈ paid since, lo ≤ price ∧ price ≤ hi) (hheld : 0 < l.quantity) :
    lo ≤ average ∧ average ≤ hi := by
  induction h generalizing since with
  | nil => exact absurd hheld (lt_irrefl _)
  | @snoc ts k m a t hk ht ih =>
    obtain ⟨earlier, rfl, hearlier⟩ := hsince.of_concat (hk.snoc ht).run_eq hheld
    have hbefore : 0 < k.quantity → lo ≤ a ∧ a ≤ hi :=
      ih hearlier fun price ⟨d, hd, hprice⟩ => hpaid price ⟨d, List.mem_append_left _ hd, hprice⟩
    cases t with
    | buy d =>
      have hpos : 0 < k.quantity + d.quantity := k.quantity_buy_pos d
      obtain ⟨hl, hh⟩ := hpaid d.price ⟨d, List.mem_append_right _ (List.mem_singleton_self _), rfl⟩
      have hl' := mul_le_mul_of_nonneg_left hl d.quantity_pos.le
      have hh' := mul_le_mul_of_nonneg_left hh d.quantity_pos.le
      -- the average is between the bounds before it is rounded
      have hheld' : k.quantity * lo ≤ k.quantity * a ∧ k.quantity * a ≤ k.quantity * hi := by
        rcases k.quantity_nonneg.eq_or_lt with hzero | hk
        · simp [← hzero]
        · exact ⟨mul_le_mul_of_nonneg_left (hbefore hk).1 hk.le,
            mul_le_mul_of_nonneg_left (hbefore hk).2 hk.le⟩
      constructor
      · rw [← hlo]
        exact hmono ((le_div_iff₀ hpos).mpr (by linarith))
      · rw [← hhi]
        exact hmono ((div_le_iff₀ hpos).mpr (by linarith))
    | sell d =>
      obtain ⟨hle, rfl⟩ := after_sell ht
      have hcarried : averageAfter round k a (.sell d) = a := if_pos hheld
      rw [hcarried]
      exact hbefore (d.quantity_pos.trans_le hle)

end Carried

end Lot
