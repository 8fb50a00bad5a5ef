import TradingBot.Policy.DecimalEngine
import TradingBot.Spec.DecimalRounding
import TradingBot.Spec.CycleSteps
import TradingBot.Spec.SimulatedPrices

/-!
# What the engine approves in a decimal context

The side and the size that the verdict of a context approves, as the exact engine has them in
`approved`. In the default context the size is the number of venue steps that the rounded
quotients reach, and the division and the truncation signal nothing until a size needs more digits
than the context has.
-/

namespace TradingBot

open FixedPoint

/-- The amounts a verdict is taken on. -/
structure Amounts where
  strength : ℚ
  cash : ℚ
  held : ℚ
  dayOpening : ℚ
  markPrice : ℚ

/-- The amounts of a signal and an account at a mark price. -/
def Amounts.loaded (signal : Signal) (account : AccountState) (markPrice : ℚ) : Amounts where
  strength := signal.strength
  cash := account.cashQuote
  held := account.position.quantity
  dayOpening := account.dayOpeningEquity
  markPrice := markPrice

namespace PolicyEngine

section Context

variable (A : DecimalContext) (limits : RiskLimits)

/-- A size that passes the minimum notional. -/
def largeEnoughIn (markPrice quantity : ℚ) : Option ℚ :=
  if 0 < quantity ∧ limits.minOrderNotionalQuote ≤ A.mul quantity markPrice then some quantity
  else none

/-- The gates before the signal is looked at: the kill switch and the daily loss. -/
def RefusedIn (x : Amounts) (killSwitchEngaged : Bool) : Prop :=
  killSwitchEngaged ∨
    A.sub (A.add x.cash (A.mul x.held x.markPrice)) x.dayOpening ≤ A.neg limits.maxDailyLossQuote

instance (x : Amounts) (killSwitchEngaged : Bool) :
    Decidable (RefusedIn A limits x killSwitchEngaged) :=
  inferInstanceAs (Decidable (_ ∨ _))

/-- The size of a buy that is approved: the strength's share of the position limit, capped by
    the headroom and the cash, at the mark price. -/
def buyIn (x : Amounts) : Except Error (Option (OrderSide × ℚ)) :=
  let headroom := A.sub limits.maxPositionQuote (A.mul x.held x.markPrice)
  if 0 < headroom ∧ 0 < x.cash then do
    let desired := A.mul limits.maxPositionQuote x.strength
    let quotient ← A.div (min (min desired headroom) x.cash) x.markPrice
    let quantity ← A.quantize quantityDigits quotient
    return (largeEnoughIn A limits x.markPrice quantity).map (.buy, ·)
  else .ok none

/-- The size of a sale that is approved: the strength's share of the held quantity. -/
def sellIn (x : Amounts) : Except Error (Option (OrderSide × ℚ)) :=
  if 0 < x.held then do
    let quantity ← A.quantize quantityDigits (A.mul x.held x.strength)
    return (largeEnoughIn A limits x.markPrice quantity).map (.sell, ·)
  else .ok none

/-- What is approved: a side and a size, or nothing, unless an operation signals. -/
def approvedIn (action : SignalAction) (x : Amounts) (killSwitchEngaged : Bool) :
    Except Error (Option (OrderSide × ℚ)) :=
  if RefusedIn A limits x killSwitchEngaged then .ok none
  else
    match action with
    | .hold => .ok none
    | .buy => buyIn A limits x
    | .sell => sellIn A limits x

end Context

/-! ## The verdict renders what is approved -/

section Verdict

variable {A : DecimalContext} {e : PolicyEngine} {signal : Signal} {account : AccountState}
  {markPrice : ℚ} {now : Instant} {cycleId : String} {checks : List RiskCheck}
  {killSwitchEngaged : Bool}

/-- A decision renders what is approved, and signals where the sizing does. -/
def RendersIn (signal : Signal) (markPrice : ℚ) (now : Instant) (cycleId : String) :
    Except Error (Option (OrderSide × ℚ)) → Except Error PolicyDecision → Prop :=
  Except.Agree fun approved d => Renders d signal markPrice now cycleId approved

/-- A hold renders that nothing is approved. -/
private theorem hold_renders (checks : List RiskCheck) (reason : String) (failed : RiskCheck) :
    RendersIn signal markPrice now cycleId (.ok none) (hold (checks ++ [failed]) reason) := by
  have hne : checks ++ [failed] ≠ [] := by simp
  obtain ⟨d, hd, houtcome, -, -, hintent⟩ := PolicyDecision.validate_hold reason hne
  unfold hold
  rw [hd]
  exact .ok ⟨houtcome, hintent⟩

/-- A size that passes the minimum notional is submitted, any other is held. -/
theorem finaliseIn_renders (side : OrderSide) (quantity : ℚ) (hmark : 0 < markPrice) :
    RendersIn signal markPrice now cycleId
      (.ok ((largeEnoughIn A e.limits markPrice quantity).map (side, ·)))
      (finaliseIn A.toDecimalArithmetic e side signal quantity markPrice now cycleId checks) := by
  unfold finaliseIn
  by_cases hlarge : 0 < quantity ∧ e.limits.minOrderNotionalQuote ≤ A.mul quantity markPrice
  -- a size that is large enough makes an intent, which passes its checks
  · have hne : checks ++ [⟨.minNotional, true, .notional (A.mul quantity markPrice)
      e.limits.minOrderNotionalQuote⟩] ≠ [] := by simp
    obtain ⟨d, hd, houtcome, -, -, hintent⟩ := PolicyDecision.validate_submit signal.reason
      ⟨cycleId ++ "-" ++ side.value, signal.symbol, side, quantity, markPrice, now, hlarge.1,
        hmark⟩ hne
    rw [largeEnoughIn, if_pos hlarge]
    simp only [hlarge, and_self, decide_true, Bool.not_true,
      Bool.false_eq_true, if_false, OrderIntent.validate_of_pos hlarge.1 hmark, bind, Except.bind]
    rw [hd]
    exact .ok ⟨houtcome, _, hintent, rfl, rfl, rfl, rfl, rfl, rfl⟩
  · rw [largeEnoughIn, if_neg hlarge]
    simp only [ge_iff_le, gt_iff_lt, hlarge, decide_false, Bool.not_false, if_true]
    exact hold_renders _ _ _

/-- The decision on a buy renders what is approved in the context, and signals where that does. -/
private theorem decideBuyIn_renders (hmark : 0 < markPrice) :
    RendersIn signal markPrice now cycleId
      (buyIn A e.limits (.loaded signal account markPrice))
      (decideBuyIn A.toDecimalArithmetic e signal account markPrice now cycleId checks) := by
  unfold decideBuyIn buyIn Amounts.loaded
  dsimp only
  by_cases hroom : 0 < A.sub e.limits.maxPositionQuote (A.mul account.position.quantity markPrice)
  · rw [if_neg (not_le.mpr hroom)]
    by_cases hcash : 0 < account.cashQuote
    · rw [if_pos ⟨hroom, hcash⟩, if_neg (by simpa using hcash)]
      -- the division and the truncation signal on both sides alike
      refine Except.Agree.bind (.refl (A.div _ _)) ?_
      rintro quotient _ rfl
      refine Except.Agree.bind (.refl (A.quantize _ _)) ?_
      rintro quantity _ rfl
      exact finaliseIn_renders .buy quantity hmark
    · rw [if_neg (fun h => hcash h.2), if_pos (by simpa using hcash)]
      exact hold_renders _ _ _
  · rw [if_neg (fun h => hroom h.1), if_pos (not_lt.mp hroom)]
    exact hold_renders _ _ _

/-- So does the decision on a sell. -/
private theorem decideSellIn_renders (hmark : 0 < markPrice) :
    RendersIn signal markPrice now cycleId
      (sellIn A e.limits (.loaded signal account markPrice))
      (decideSellIn A.toDecimalArithmetic e signal account markPrice now cycleId checks) := by
  unfold decideSellIn sellIn Amounts.loaded
  dsimp only
  by_cases hheld : 0 < account.position.quantity
  · rw [if_pos hheld, if_neg (not_le.mpr hheld)]
    refine Except.Agree.bind (.refl (A.quantize _ _)) ?_
    rintro quantity _ rfl
    exact finaliseIn_renders .sell quantity hmark
  · rw [if_neg hheld, if_pos (not_lt.mp hheld)]
    exact hold_renders _ _ _

/-- The verdict renders what is approved, in any context. -/
theorem decideIn_renders (e : PolicyEngine) (signal : Signal) (account : AccountState)
    (hmark : 0 < markPrice) (killSwitchEngaged : Bool) (now : Instant) (cycleId : String) :
    RendersIn signal markPrice now cycleId
      (approvedIn A e.limits signal.action (.loaded signal account markPrice) killSwitchEngaged)
      (e.decideIn A signal account markPrice killSwitchEngaged now cycleId) := by
  unfold decideIn approvedIn
  -- the gates in the order of the source, then one case for each action
  cases killSwitchEngaged with
  | true =>
    rw [if_pos (.inl rfl), if_pos rfl]
    exact hold_renders [] _ _
  | false =>
    rw [if_neg Bool.false_ne_true]
    by_cases hloss : account.dailyPnlAtIn A markPrice ≤ A.neg e.limits.maxDailyLossQuote
    · rw [if_pos (.inr hloss)]
      simp only [hloss, decide_true, if_true]
      exact hold_renders _ _ _
    · have hopen : ¬RefusedIn A e.limits (.loaded signal account markPrice) false :=
        not_or.mpr ⟨Bool.false_ne_true, hloss⟩
      rw [if_neg hopen]
      simp only [hloss, decide_false, Bool.false_eq_true, if_false]
      cases haction : signal.action with
      | hold => exact hold_renders _ _ _
      | buy => exact decideBuyIn_renders hmark
      | sell => exact decideSellIn_renders hmark

end Verdict

/-- An order is only ever approved on the side the signal asks for. -/
theorem approvedIn_action {A : DecimalContext} {limits : RiskLimits} {action : SignalAction}
    {x : Amounts} {killSwitchEngaged : Bool} {side : OrderSide} {quantity : ℚ}
    (h : approvedIn A limits action x killSwitchEngaged = .ok (some (side, quantity))) :
    action = sideAction side := by
  unfold approvedIn at h
  by_cases hrefused : RefusedIn A limits x killSwitchEngaged
  · rw [if_pos hrefused] at h
    cases h
  · rw [if_neg hrefused] at h
    -- each side approves orders of its own only
    cases action with
    | hold => cases h
    | buy =>
      change buyIn A limits x = _ at h
      unfold buyIn at h
      dsimp only at h
      split at h
      next =>
        obtain ⟨_, -, h⟩ := Except.bind_eq_ok.mp h
        obtain ⟨_, -, h⟩ := Except.bind_eq_ok.mp h
        obtain ⟨_, -, hside⟩ := Option.map_eq_some_iff.mp (Except.ok.inj h)
        cases hside
        rfl
      next => cases h
    | sell =>
      change sellIn A limits x = _ at h
      unfold sellIn at h
      split at h
      next =>
        obtain ⟨_, -, h⟩ := Except.bind_eq_ok.mp h
        obtain ⟨_, -, hside⟩ := Option.map_eq_some_iff.mp (Except.ok.inj h)
        cases hside
        rfl
      next => cases h

end PolicyEngine

namespace TradingCycle.Prepares

variable {A : DecimalContext} {c : TradingCycle} {db : Database} {p : Prepared}

/-- A cycle that has prepared decided on what was approved. -/
theorem exists_approvedIn (h : c.Prepares db p A) : ∃ approved,
    PolicyEngine.approvedIn A c.policy.limits p.signal.action
        (.loaded p.signal p.account p.markPrice) c.killSwitch = .ok approved ∧
      PolicyEngine.Renders p.decision p.signal p.markPrice c.clock p.cycleId approved := by
  have hrenders := c.policy.decideIn_renders (A := A) p.signal p.account h.markPrice_pos
    c.killSwitch c.clock p.cycleId
  rw [h.decided] at hrenders
  exact hrenders.of_ok_right

/-- An intent is on the side the signal asks for, under the id of its bar. -/
theorem intent_eqIn (h : c.Prepares db p A) {i : OrderIntent} (hi : p.decision.intent = some i) :
    p.signal.action = PolicyEngine.sideAction i.side ∧
      i.clientOrderId = p.cycleId ++ "-" ++ i.side.value := by
  obtain ⟨approved, happroved, hrenders⟩ := h.exists_approvedIn
  obtain ⟨rfl, hid, -⟩ := hrenders.intent_eq hi
  exact ⟨PolicyEngine.approvedIn_action happroved, hid⟩

end TradingCycle.Prepares

/-! ## Sizes in the default context -/

/-- A number of venue steps. -/
def venueSteps (n : ℕ) : ℚ := n / 10 ^ quantityDigits

namespace Amounts

variable (limits : RiskLimits) (action : SignalAction) (x : Amounts) (killSwitchEngaged : Bool)

/-- A number of venue steps stays within what each cap leaves: within the strength's share of the
    position limit, the headroom and the cash for a buy, each divided by the mark price, and
    within the strength's share of the holding for a sale. -/
def Reaches (n : ℕ) : Prop :=
  match action with
  | .hold => False
  | .buy =>
    venueSteps n ≤ rounded (rounded (limits.maxPositionQuote * x.strength) / x.markPrice) ∧
      venueSteps n ≤ rounded (rounded (limits.maxPositionQuote -
        rounded (x.held * x.markPrice)) / x.markPrice) ∧
      venueSteps n ≤ rounded (x.cash / x.markPrice)
  | .sell => venueSteps n ≤ rounded (x.held * x.strength)

/-- The kill switch is clear, the loss of the day is within its limit, and the caps leave room for
    a number of venue steps. -/
def Affords (n : ℕ) : Prop :=
  ¬PolicyEngine.RefusedIn .default limits x killSwitchEngaged ∧ x.Reaches limits action n

/-- A number of venue steps is worth the minimum notional. -/
def Worth (n : ℕ) : Prop := limits.minOrderNotionalQuote ≤ rounded (venueSteps n * x.markPrice)

instance (n : ℕ) : Decidable (x.Worth limits n) := inferInstanceAs (Decidable (_ ≤ _))

end Amounts

namespace PolicyEngine

/-- The side a signal asks for. -/
def actionSide : SignalAction → Option OrderSide
  | .hold => none
  | .buy => some .buy
  | .sell => some .sell

/-- The steps a size may have before its digits exceed the context. -/
def stepBound : ℕ := 10 ^ DecimalArithmetic.precision

section Sizes

variable {limits : RiskLimits} {action : SignalAction} {x : Amounts} {killSwitchEngaged : Bool}

/-- More steps are a larger quantity. -/
theorem venueSteps_mono : Monotone venueSteps := fun m n h =>
  div_le_div_of_nonneg_right (Nat.cast_le.mpr h) (by positivity)

/-- Some steps are a positive quantity. -/
theorem venueSteps_pos_iff {n : ℕ} : 0 < venueSteps n ↔ 0 < n := by
  rw [venueSteps, div_pos_iff_of_pos_right (by positivity), Nat.cast_pos]

/-- More steps are worth the minimum notional if fewer are. -/
theorem worth_mono (hmark : 0 ≤ x.markPrice) {m n : ℕ} (h : m ≤ n) (hm : x.Worth limits m) :
    x.Worth limits n :=
  hm.trans (rounded_mono (mul_le_mul_of_nonneg_right (venueSteps_mono h) hmark))

/-- Truncating a quotient to the venue's step counts the steps it reaches. -/
private theorem exists_steps {quotient : ℚ} (h : 0 ≤ quotient) : ∃ n : ℕ,
    (∀ m, venueSteps m ≤ quotient ↔ m ≤ n) ∧
      ((n < stepBound ∧ DecimalContext.default.quantize quantityDigits quotient =
          .ok (venueSteps n)) ∨
        (stepBound ≤ n ∧ ∃ err, DecimalContext.default.quantize quantityDigits quotient =
          .error err)) := by
  have hscaled : 0 ≤ quotient * 10 ^ quantityDigits := by positivity
  have hsteps : truncateTo quantityDigits quotient =
      venueSteps ⌊quotient * 10 ^ quantityDigits⌋₊ := by
    rw [truncateTo, truncate_of_nonneg hscaled, venueSteps,
      natCast_floor_eq_intCast_floor hscaled]
  -- the number of whole steps in the quotient
  refine ⟨⌊quotient * 10 ^ quantityDigits⌋₊, fun m => ?_, ?_⟩
  · rw [Nat.le_floor_iff hscaled, venueSteps, div_le_iff₀ (by positivity)]
  · change (_ ∧ DecimalArithmetic.quantized quantityDigits (truncateTo quantityDigits quotient) =
        _) ∨ (_ ∧ ∃ err, DecimalArithmetic.quantized quantityDigits
          (truncateTo quantityDigits quotient) = .error err)
    rw [hsteps]
    generalize ⌊quotient * 10 ^ quantityDigits⌋₊ = n
    -- the truncated quotient has room exactly below the bound
    have hdigits : |venueSteps n| * 10 ^ quantityDigits < 10 ^ DecimalArithmetic.precision ↔
        n < stepBound := by
      rw [abs_of_nonneg (by unfold venueSteps; positivity), venueSteps,
        div_mul_cancel₀ _ (by positivity : (10 : ℚ) ^ quantityDigits ≠ 0), stepBound]
      exact_mod_cast Iff.rfl
    unfold DecimalArithmetic.quantized
    by_cases hfits : n < stepBound
    · exact .inl ⟨hfits, if_pos (hdigits.mpr hfits)⟩
    · exact .inr ⟨not_lt.mp hfits, _, if_neg (hdigits.not.mpr hfits)⟩

/-- What is approved when the caps leave room for so many steps: all of them, when they are worth
    the minimum notional and have no more digits than the context. -/
structure Approves (limits : RiskLimits) (action : SignalAction) (x : Amounts)
    (killSwitchEngaged : Bool) (n : ℕ) : Prop where
  affords : ∀ m, 0 < m → (x.Affords limits action killSwitchEngaged m ↔ m ≤ n)
  fits : n < stepBound → approvedIn .default limits action x killSwitchEngaged =
    .ok (if 0 < n ∧ x.Worth limits n then (actionSide action).map (·, venueSteps n) else none)
  overflows : stepBound ≤ n →
    ∃ err, approvedIn .default limits action x killSwitchEngaged = .error err

/-- Where nothing is affordable and nothing approved, there is room for no step. -/
private theorem approves_zero (h : approvedIn .default limits action x killSwitchEngaged = .ok none)
    (hnone : ∀ n, 0 < n → ¬x.Affords limits action killSwitchEngaged n) :
    Approves limits action x killSwitchEngaged 0 where
  affords n hn := iff_of_false (hnone n hn) hn.not_ge
  fits _ := by simpa using h
  overflows hbound := absurd hbound (by decide +kernel)

/-- A quotient that is truncated and passed on approves the steps it reaches. -/
private theorem exists_approves_of_quotient {quotient : ℚ} (hnonneg : 0 ≤ quotient)
    {side : OrderSide} (hside : actionSide action = some side)
    (happroved : approvedIn .default limits action x killSwitchEngaged = (do
      let quantity ← DecimalContext.default.quantize quantityDigits quotient
      return (largeEnoughIn .default limits x.markPrice quantity).map (side, ·)))
    (hreaches : ∀ n, 0 < n → (x.Affords limits action killSwitchEngaged n ↔
      venueSteps n ≤ quotient)) :
    ∃ n, Approves limits action x killSwitchEngaged n := by
  obtain ⟨n, hsteps, hquantize⟩ := exists_steps hnonneg
  refine ⟨n, fun m hm => (hreaches m hm).trans (hsteps m), fun hfits => ?_, fun hbound => ?_⟩
  · obtain ⟨-, hok⟩ := hquantize.resolve_right fun h => h.1.not_gt hfits
    -- the truncated quotient is a number of steps, and the last check is about these
    have hlarge : largeEnoughIn .default limits x.markPrice (venueSteps n) =
        if 0 < n ∧ x.Worth limits n then some (venueSteps n) else none := by
      unfold largeEnoughIn
      simp only [venueSteps_pos_iff]
      rfl
    rw [happroved, hok, hside]
    simp only [bind, Except.bind, pure, Except.pure, hlarge]
    split <;> rfl
  · obtain ⟨-, err, herror⟩ := hquantize.resolve_left fun h => hbound.not_gt h.1
    rw [happroved, herror]
    exact ⟨err, rfl⟩

/-- A quotient that stays positive when rounded is of a positive amount. -/
private theorem pos_of_rounded_div_pos {value price : ℚ} (hprice : 0 < price)
    (h : 0 < rounded (value / price)) : 0 < value := by
  by_contra hle
  have hneg := rounded_mono (div_nonpos_of_nonpos_of_nonneg (not_lt.mp hle) hprice.le)
  rw [rounded_zero] at hneg
  exact absurd h hneg.not_gt

/-- A buy reaches a number of steps when the least of its caps does. -/
private theorem reaches_buy_iff (hmark : 0 < x.markPrice) {n : ℕ} :
    x.Reaches limits .buy n ↔ venueSteps n ≤ rounded (min (min
      (rounded (limits.maxPositionQuote * x.strength))
      (rounded (limits.maxPositionQuote - rounded (x.held * x.markPrice)))) x.cash /
        x.markPrice) := by
  rw [← min_div_div_right hmark.le, ← min_div_div_right hmark.le, rounded_mono.map_min,
    rounded_mono.map_min, le_min_iff, le_min_iff, and_assoc]
  rfl

/-- What is approved is the largest affordable number of steps. -/
theorem exists_approves (hmark : 0 < x.markPrice) (hstrength : 0 ≤ x.strength) :
    ∃ n, Approves limits action x killSwitchEngaged n := by
  by_cases hrefused : RefusedIn .default limits x killSwitchEngaged
  · exact ⟨0, approves_zero (if_pos hrefused) fun n _ h => h.1 hrefused⟩
  · cases action with
    | hold => exact ⟨0, approves_zero (if_neg hrefused) fun n _ h => h.2⟩
    | buy =>
      by_cases hroom : 0 < rounded (limits.maxPositionQuote - rounded (x.held * x.markPrice)) ∧
          0 < x.cash
      · have hdesired : 0 ≤ rounded (limits.maxPositionQuote * x.strength) :=
          rounded_nonneg (mul_nonneg limits.maxPositionQuote_pos.le hstrength)
        refine exists_approves_of_quotient (rounded_nonneg (div_nonneg
          (le_min (le_min hdesired hroom.1.le) hroom.2.le) hmark.le)) rfl ?_ fun n _ =>
            ⟨fun h => (reaches_buy_iff hmark).mp h.2,
              fun h => ⟨hrefused, (reaches_buy_iff hmark).mpr h⟩⟩
        have hdiv : ∀ value, DecimalContext.default.div value x.markPrice =
            .ok (rounded (value / x.markPrice)) := fun _ => if_pos hmark.ne'
        refine ((if_neg hrefused).trans (if_pos hroom)).trans ?_
        rw [hdiv]
        rfl
      · refine ⟨0, approves_zero ((if_neg hrefused).trans (if_neg hroom)) fun n hn h => hroom ?_⟩
        -- what reaches a step is positive
        obtain ⟨-, hheadroom, hcash⟩ := h.2
        have hstep := venueSteps_pos_iff.mpr hn
        exact ⟨pos_of_rounded_div_pos hmark (hstep.trans_le hheadroom),
          pos_of_rounded_div_pos hmark (hstep.trans_le hcash)⟩
    | sell =>
      by_cases hheld : 0 < x.held
      · refine exists_approves_of_quotient (rounded_nonneg (mul_nonneg hheld.le hstrength)) rfl ?_
          fun n _ => ⟨fun h => h.2, fun h => ⟨hrefused, h⟩⟩
        exact (if_neg hrefused).trans (if_pos hheld)
      · refine ⟨0, approves_zero ((if_neg hrefused).trans (if_neg hheld)) fun n hn h => hheld ?_⟩
        have hshare : 0 < rounded (x.held * x.strength) := (venueSteps_pos_iff.mpr hn).trans_le h.2
        by_contra hle
        have hneg := rounded_mono (mul_nonpos_of_nonpos_of_nonneg (not_lt.mp hle) hstrength)
        rw [rounded_zero] at hneg
        exact absurd hshare hneg.not_gt

end Sizes

end PolicyEngine

end TradingBot
