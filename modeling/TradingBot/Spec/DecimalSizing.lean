import TradingBot.Spec.DecimalVerdict
import TradingBot.Spec.Scenario

/-!
# Sizing under rounded arithmetic

The engine divides and multiplies with 28 significant digits before it truncates the size, and
the quotient may have been rounded up across a step of the size. The limits hold nonetheless:
the notional of a size and the caps lie on a grid of ten digits after the point, and the error
of the quotient is far below the distance between two points of it.
-/

namespace TradingBot

open FixedPoint

/-- The amounts the engine sizes from have few digits: holdings of 8 decimals, prices of 2,
    cash and limit of 10, and all notionals below 10 ^ 15. -/
structure FewDigits (limits : RiskLimits) (account : AccountState) (markPrice : ℚ) : Prop where
  held : account.position.quantity ∈ Grid ℚ quantityDigits
  price : markPrice ∈ Grid ℚ 2
  price_pos : 0 < markPrice
  cash : account.cashQuote ∈ Grid ℚ 10
  limit : limits.maxPositionQuote ∈ Grid ℚ 10
  held_lt : account.position.notionalAt markPrice < 10 ^ 15
  cash_lt : account.cashQuote < 10 ^ 15
  limit_lt : limits.maxPositionQuote < 10 ^ 15

namespace FewDigits

variable {limits : RiskLimits} {account : AccountState} {markPrice : ℚ}

/-- The value of the holdings has ten decimals: eight of the quantity and two of the price. -/
theorem notional_mem (h : FewDigits limits account markPrice) :
    account.position.notionalAt markPrice ∈ Grid ℚ 10 :=
  grid_mul h.held h.price

/-- The value of the holdings is not negative. -/
theorem notional_nonneg (h : FewDigits limits account markPrice) :
    0 ≤ account.position.notionalAt markPrice :=
  mul_nonneg account.position.quantity_nonneg h.price_pos.le

/-- The room under the limit has ten decimals. -/
theorem headroom_mem (h : FewDigits limits account markPrice) :
    limits.maxPositionQuote - account.position.notionalAt markPrice ∈ Grid ℚ 10 :=
  sub_mem h.limit h.notional_mem

/-- The room under the limit is below the bound of the limit. -/
theorem headroom_lt (h : FewDigits limits account markPrice) :
    limits.maxPositionQuote - account.position.notionalAt markPrice < 10 ^ 15 :=
  (sub_le_self _ h.notional_nonneg).trans_lt h.limit_lt

/-- The notional of the position is exact. -/
theorem mul_held (h : FewDigits limits account markPrice) :
    DecimalArithmetic.default.mul account.position.quantity markPrice =
      account.position.notionalAt markPrice := by
  refine roundSig_of_mem_grid h.notional_mem ?_ (by decide : 10 + 15 ≤ 28)
  show |account.position.notionalAt markPrice| < 10 ^ 15
  rw [abs_of_nonneg h.notional_nonneg]
  exact h.held_lt

/-- The headroom is exact. -/
theorem sub_held (h : FewDigits limits account markPrice) :
    DecimalArithmetic.default.sub limits.maxPositionQuote
        (account.position.notionalAt markPrice) =
      limits.maxPositionQuote - account.position.notionalAt markPrice := by
  refine roundSig_of_mem_grid h.headroom_mem ?_ (by decide : 10 + 15 ≤ 28)
  rw [abs_lt]
  exact ⟨by linarith [h.held_lt, limits.maxPositionQuote_pos], h.headroom_lt⟩

/-- A price is at least a cent. -/
theorem cent_le (h : FewDigits limits account markPrice) : 1 / 100 ≤ markPrice := by
  obtain ⟨k, hk⟩ := mem_grid.mp h.price
  have hpos := h.price_pos
  rw [hk] at hpos ⊢
  have hk : 0 < k := by
    have hcast : (0 : ℚ) < k := (div_pos_iff_of_pos_right (by norm_num)).mp hpos
    exact_mod_cast hcast
  have hone : (1 : ℚ) ≤ k := by exact_mod_cast hk
  norm_num
  linarith

/-- What is worth less than 10 ^ 15 is of a size below 10 ^ 17. -/
theorem lt_of_mul_lt (h : FewDigits limits account markPrice) {q : ℚ}
    (hq : q * markPrice < 10 ^ 15) : q < 10 ^ 17 := by
  have hcent := h.cent_le
  by_contra hlarge
  have hworth : 10 ^ 17 * (1 / 100) ≤ q * markPrice :=
    mul_le_mul (not_lt.mp hlarge) hcent (by norm_num) (by linarith [not_lt.mp hlarge])
  norm_num at hworth hq
  linarith

end FewDigits

namespace PolicyEngine

/-- Truncation keeps the sign. -/
theorem quantize_nonneg {x : ℚ} (hx : 0 ≤ x) : 0 ≤ quantize x :=
  (isGreatest_truncateTo quantityDigits hx).2 ⟨zero_mem _, hx⟩

/-- Truncating to the step of the size signals nothing below 10 ^ 20. -/
theorem quantize_default {x : ℚ} (hx : 0 ≤ x) (hlt : quantize x < 10 ^ 20) :
    DecimalArithmetic.default.quantize quantityDigits x = .ok (quantize x) := by
  have hnonneg := quantize_nonneg hx
  refine if_pos ?_
  change |quantize x| * 10 ^ quantityDigits < 10 ^ DecimalArithmetic.precision
  rw [abs_of_nonneg hnonneg]
  norm_num [quantityDigits, DecimalArithmetic.precision] at hlt ⊢
  linarith

variable {e : PolicyEngine} {signal : Signal} {account : AccountState} {markPrice : ℚ}
  {now : Instant} {cycleId : String} {checks : List RiskCheck}

/-- A hold has no intent. -/
private theorem hold_intent (reason : String) {check : RiskCheck} :
    ∃ d, hold (checks ++ [check]) reason = .ok d ∧ d.intent = none := by
  have hne : checks ++ [check] ≠ [] := by simp
  obtain ⟨d, hd, -, -, -, hintent⟩ := PolicyDecision.validate_hold reason hne
  exact ⟨d, hd, hintent⟩

/-- A size is submitted as it is, or held. -/
private theorem finaliseIn_spec (side : OrderSide) (quantity : ℚ) (hmark : 0 < markPrice) :
    ∃ d, finaliseIn .default e side signal quantity markPrice now cycleId checks = .ok d ∧
      ∀ i, d.intent = some i → i.side = side ∧ i.quantity = quantity := by
  have hrenders : RendersIn signal markPrice now cycleId
      (.ok ((largeEnoughIn .default e.limits markPrice quantity).map (side, ·)))
      (finaliseIn .default e side signal quantity markPrice now cycleId checks) :=
    finaliseIn_renders side quantity hmark
  obtain ⟨d, hd, hrendered⟩ := hrenders.of_ok_left
  refine ⟨d, hd, fun i hi => ?_⟩
  unfold largeEnoughIn at hrendered
  split at hrendered
  next =>
    obtain ⟨-, i', hi', -, -, hside, hquantity, -⟩ := hrendered
    cases hi'.symm.trans hi
    exact ⟨hside, hquantity⟩
  next => exact nomatch hrendered.2.symm.trans hi

/-- The size that a rounded quotient is truncated to is worth no more than any cap on the
    notional, and it is found without a signal. -/
private theorem exists_size (h : FewDigits e.limits account markPrice) {notional : ℚ}
    (hnonneg : 0 ≤ notional) (hcash : notional ≤ account.cashQuote) :
    ∃ quotient size, DecimalArithmetic.default.div notional markPrice = .ok quotient ∧
      DecimalArithmetic.default.quantize quantityDigits quotient = .ok size ∧
      ∀ cap ∈ Grid ℚ 10, notional ≤ cap → cap < 10 ^ 15 → size * markPrice ≤ cap := by
  have hquotient : 0 ≤ roundSig 10 DecimalArithmetic.precision (notional / markPrice) :=
    roundSig_nonneg (by decide) (div_nonneg hnonneg h.price_pos.le)
  have hcapped : ∀ cap ∈ Grid ℚ 10, notional ≤ cap → cap < 10 ^ 15 →
      quantize (roundSig 10 DecimalArithmetic.precision (notional / markPrice)) * markPrice ≤
        cap := fun cap hcap hle hlt =>
    mul_le_of_le_roundSig_div (truncateTo_le hquotient) h.price_pos hnonneg hle
      (grid_mul (quantize_mem _) h.price) hcap hlt (by decide : 10 + 15 < 28)
  have hsize : quantize (roundSig 10 DecimalArithmetic.precision (notional / markPrice)) <
      10 ^ 20 := by
    have hpaid := hcapped account.cashQuote h.cash hcash h.cash_lt
    exact (h.lt_of_mul_lt (hpaid.trans_lt h.cash_lt)).trans (by norm_num)
  exact ⟨_, _, if_pos h.price_pos.ne', quantize_default hquotient hsize, hcapped⟩

/-- A buy is within the limit and the cash, and no operation on the way signals. -/
private theorem decideBuyIn_within (h : FewDigits e.limits account markPrice) :
    ∃ d, decideBuyIn .default e signal account markPrice now cycleId checks = .ok d ∧
      ∀ i, d.intent = some i → i.side = .buy ∧
        (account.position.quantity + i.quantity) * markPrice ≤ e.limits.maxPositionQuote ∧
        i.quantity * markPrice ≤ account.cashQuote := by
  unfold decideBuyIn
  simp only [h.mul_held, h.sub_held]
  by_cases hroom : 0 < e.limits.maxPositionQuote - account.position.notionalAt markPrice
  · rw [if_neg (not_le.mpr hroom)]
    by_cases hcash : 0 < account.cashQuote
    · rw [if_neg (by simpa using hcash)]
      have hdesired : 0 ≤ DecimalArithmetic.default.mul e.limits.maxPositionQuote
          signal.strength :=
        roundSig_nonneg (by decide)
          (mul_nonneg e.limits.maxPositionQuote_pos.le signal.strength_nonneg)
      -- the smallest of the three amounts is sized, so the size is within each of them
      obtain ⟨quotient, size, hdiv, hquantize, hcapped⟩ :=
        exists_size h (le_min (le_min hdesired hroom.le) hcash.le) (min_le_right _ _)
      simp only [hdiv, hquantize, bind, Except.bind]
      obtain ⟨d, hd, hintent⟩ := finaliseIn_spec .buy size h.price_pos
      refine ⟨d, hd, fun i hi => ?_⟩
      obtain ⟨hside, rfl⟩ := hintent i hi
      have hwithin := hcapped _ h.headroom_mem ((min_le_left _ _).trans (min_le_right _ _))
        h.headroom_lt
      have hpaid := hcapped _ h.cash (min_le_right _ _) h.cash_lt
      refine ⟨hside, ?_, hpaid⟩
      rw [add_mul]
      exact le_sub_iff_add_le'.mp hwithin
    · obtain ⟨d, hd, hintent⟩ := hold_intent "no cash available"
      rw [if_pos (by simpa using hcash)]
      exact ⟨d, hd, by simp [hintent]⟩
  · obtain ⟨d, hd, hintent⟩ := hold_intent "position limit reached"
    rw [if_pos (not_lt.mp hroom)]
    exact ⟨d, hd, by simp [hintent]⟩

/-- The rounded share of a holding is truncated to no more than the holding. -/
private theorem quantize_share_le (h : FewDigits e.limits account markPrice) (signal : Signal) :
    quantize (DecimalArithmetic.default.mul account.position.quantity signal.strength) ≤
      account.position.quantity := by
  have hheld := account.position.quantity_nonneg
  have hshare := mul_nonneg hheld signal.strength_nonneg
  have hle : account.position.quantity * signal.strength ≤ account.position.quantity :=
    mul_le_of_le_one_right hheld signal.strength_le_one
  have hrounded : quantize (DecimalArithmetic.default.mul account.position.quantity
      signal.strength) ≤ roundSig 10 DecimalArithmetic.precision
        (account.position.quantity * signal.strength / 1) := by
    rw [div_one]
    exact truncateTo_le (roundSig_nonneg (by decide) hshare)
  have hworth := mul_le_of_le_roundSig_div hrounded one_pos hshare hle
    (by rw [mul_one]; exact quantize_mem _) h.held (h.lt_of_mul_lt h.held_lt)
    (by decide : quantityDigits + 17 < 28)
  rwa [mul_one] at hworth

/-- A sale is within what is held, and no operation on the way signals. -/
private theorem decideSellIn_within (h : FewDigits e.limits account markPrice) :
    ∃ d, decideSellIn .default e signal account markPrice now cycleId checks = .ok d ∧
      ∀ i, d.intent = some i → i.side = .sell ∧ i.quantity ≤ account.position.quantity := by
  unfold decideSellIn
  dsimp only
  by_cases hheld : 0 < account.position.quantity
  · have hshare : 0 ≤ DecimalArithmetic.default.mul account.position.quantity signal.strength :=
      roundSig_nonneg (by decide) (mul_nonneg hheld.le signal.strength_nonneg)
    have hle := quantize_share_le h signal
    -- the share of the holdings is small enough to be truncated
    have hsize : quantize (DecimalArithmetic.default.mul account.position.quantity
        signal.strength) < 10 ^ 20 :=
      (hle.trans_lt (h.lt_of_mul_lt h.held_lt)).trans (by norm_num)
    rw [if_neg (not_le.mpr hheld)]
    simp only [quantize_default hshare hsize, bind, Except.bind]
    obtain ⟨d, hd, hintent⟩ := finaliseIn_spec .sell
      (quantize (DecimalArithmetic.default.mul account.position.quantity signal.strength))
      h.price_pos
    refine ⟨d, hd, fun i hi => ?_⟩
    obtain ⟨hside, hquantity⟩ := hintent i hi
    exact ⟨hside, hquantity.trans_le hle⟩
  · obtain ⟨d, hd, hintent⟩ := hold_intent "nothing to sell: short selling is not supported"
    rw [if_pos (not_lt.mp hheld)]
    exact ⟨d, hd, by simp [hintent]⟩

/-- Sizing in the default context raises nothing and stays within the exact limits: a buy
    within the limit on the position and the cash, a sale within the holding. -/
theorem decimal_sizing_within_limits (e : PolicyEngine) (signal : Signal)
    (account : AccountState) (markPrice : ℚ) (now : Instant) (cycleId : String)
    (checks : List RiskCheck) (h : FewDigits e.limits account markPrice) :
    (∃ d, decideBuyIn .default e signal account markPrice now cycleId checks = .ok d ∧
        ∀ i, d.intent = some i → i.side = .buy ∧
          (account.position.quantity + i.quantity) * markPrice ≤ e.limits.maxPositionQuote ∧
          i.quantity * markPrice ≤ account.cashQuote) ∧
      ∃ d, decideSellIn .default e signal account markPrice now cycleId checks = .ok d ∧
        ∀ i, d.intent = some i → i.side = .sell ∧ i.quantity ≤ account.position.quantity :=
  ⟨decideBuyIn_within h, decideSellIn_within h⟩

/-- With a third of a bitcoin held, at a price in cents: half the largest position is bought, or
    half the holding sold, to the last whole step. -/
theorem decimal_sizing_within_limits_third :
    let signal : Signal := ⟨"BTC/USDT", .buy, 1 / 2, noon, "fixed", "as scripted",
      by decide +kernel, by decide +kernel⟩
    let position : Position := ⟨"BTC/USDT", 33333333 / 10 ^ 8, 0, by decide +kernel, le_rfl⟩
    let account : AccountState := ⟨1000, position, 1000, by decide⟩
    let price : ℚ := 30001 / 100
    (∃ d i, decideBuyIn .default ⟨defaultLimits⟩ signal account price noon "cycle" [] = .ok d ∧
        d.intent = some i ∧ i.side = .buy ∧ i.quantity = 166661111 / 10 ^ 8 ∧
        (33333333 / 10 ^ 8 + i.quantity) * price ≤ defaultLimits.maxPositionQuote ∧
        i.quantity * price ≤ 1000) ∧
      ∃ d i, decideSellIn .default ⟨defaultLimits⟩ signal account price noon "cycle" [] = .ok d ∧
        d.intent = some i ∧ i.side = .sell ∧ i.quantity = 16666666 / 10 ^ 8 ∧
        i.quantity ≤ 33333333 / 10 ^ 8 := by
  intro signal position account price
  -- what is bought and what is sold, by evaluation
  have hbought : (decideBuyIn .default ⟨defaultLimits⟩ signal account price noon "cycle"
      []).toOption.any (·.intent.any (·.quantity = 166661111 / 10 ^ 8)) = true := by
    decide +kernel
  have hsold : (decideSellIn .default ⟨defaultLimits⟩ signal account price noon "cycle"
      []).toOption.any (·.intent.any (·.quantity = 16666666 / 10 ^ 8)) = true := by
    decide +kernel
  obtain ⟨⟨d, hd, hbuy⟩, d', hd', hsell⟩ :=
    decimal_sizing_within_limits ⟨defaultLimits⟩ signal account price noon "cycle" []
      ⟨mem_grid.mpr ⟨33333333, by decide +kernel⟩, mem_grid.mpr ⟨30001, by decide +kernel⟩,
        by decide +kernel, mem_grid.mpr ⟨1000 * 10 ^ 10, by decide +kernel⟩,
        mem_grid.mpr ⟨1000 * 10 ^ 10, by decide +kernel⟩, by decide +kernel, by decide +kernel,
        by decide +kernel⟩
  simp only [hd, hd', Except.toOption, Option.any_some, Option.any_eq_true, decide_eq_true_eq]
    at hbought hsold
  obtain ⟨i, hi, hquantity⟩ := hbought
  obtain ⟨i', hi', hquantity'⟩ := hsold
  obtain ⟨hside, hposition, hcash⟩ := hbuy i hi
  obtain ⟨hside', hinventory⟩ := hsell i' hi'
  exact ⟨⟨d, i, hd, hi, hside, hquantity, hposition, hcash⟩, d', i', hd', hi', hside', hquantity',
    hinventory⟩

end PolicyEngine

end TradingBot
