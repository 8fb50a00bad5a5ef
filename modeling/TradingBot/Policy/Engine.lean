import TradingBot.Domain.Portfolio
import TradingBot.ForMathlib.Rounding

/-!
# The policy engine

Turns a signal into an order intent, or into a recorded refusal. The engine is pure:
same inputs, same decision. It is the only place where an order acquires a size.

`approved` states what the engine decides without the record of its checks: the side
and size it approves, or nothing. `decide_spec` ties the two together, and later
results about sizes are stated about `approved`.
-/

namespace TradingBot

open FixedPoint

/-- The hard bounds the policy engine enforces. -/
structure RiskLimits where
  maxPositionQuote : ℚ
  maxDailyLossQuote : ℚ
  minOrderNotionalQuote : ℚ
  maxPositionQuote_pos : 0 < maxPositionQuote
  maxDailyLossQuote_pos : 0 < maxDailyLossQuote
  minOrderNotionalQuote_pos : 0 < minOrderNotionalQuote
  deriving Repr

namespace RiskLimits

def checks (maxPositionQuote maxDailyLossQuote minOrderNotionalQuote : ℚ) : List FieldCheck :=
  [.gtZero "max_position_quote" maxPositionQuote,
    .gtZero "max_daily_loss_quote" maxDailyLossQuote,
    .gtZero "min_order_notional_quote" minOrderNotionalQuote]

def validate (maxPositionQuote maxDailyLossQuote minOrderNotionalQuote : ℚ) :
    Except Error RiskLimits :=
  validated "RiskLimits" (checks maxPositionQuote maxDailyLossQuote minOrderNotionalQuote)
    fun h =>
      { maxPositionQuote, maxDailyLossQuote, minOrderNotionalQuote
        maxPositionQuote_pos := h.1, maxDailyLossQuote_pos := h.2.1
        minOrderNotionalQuote_pos := h.2.2.1 }

end RiskLimits

/-- The number of decimals of `QUANTITY_STEP`. -/
def quantityDigits : ℕ := 8

structure PolicyEngine where
  limits : RiskLimits
  deriving Repr

namespace PolicyEngine

/-- Round down to the venue's smallest increment. -/
def quantize (quantity : ℚ) : ℚ := truncateTo quantityDigits quantity

def hold (checks : List RiskCheck) (reason : String) : Except Error PolicyDecision :=
  PolicyDecision.validate .hold reason checks none

/-- `_finalise`. -/
def finalise (e : PolicyEngine) (side : OrderSide) (signal : Signal) (quantity markPrice : ℚ)
    (now : Instant) (cycleId : String) (checks : List RiskCheck) :
    Except Error PolicyDecision := do
  -- a size that was truncated to zero is caught here, before an intent could be invalid
  let notional := quantity * markPrice
  let largeEnough : Bool := quantity > 0 ∧ notional ≥ e.limits.minOrderNotionalQuote
  let checks := checks ++
    [⟨.minNotional, largeEnough, .notional notional e.limits.minOrderNotionalQuote⟩]
  if !largeEnough then
    hold checks "order would be below the minimum notional"
  else
    let intent ← OrderIntent.validate (cycleId ++ "-" ++ side.value) signal.symbol side quantity
      markPrice now
    PolicyDecision.validate .submit signal.reason checks (some intent)

/-- `_decide_buy`. The mark price is the close of a candle, hence never zero. -/
def decideBuy (e : PolicyEngine) (signal : Signal) (account : AccountState) (markPrice : ℚ)
    (now : Instant) (cycleId : String) (checks : List RiskCheck) :
    Except Error PolicyDecision :=
  let heldNotional := account.position.notionalAt markPrice
  let headroom := e.limits.maxPositionQuote - heldNotional
  let checks := checks ++
    [⟨.positionLimit, headroom > 0, .position heldNotional e.limits.maxPositionQuote headroom⟩]
  if headroom ≤ 0 then
    -- the cash is not looked at, so the record ends with this check
    hold checks "position limit reached"
  else
    let desired := e.limits.maxPositionQuote * signal.strength
    let notional := min desired headroom
    let affordable : Bool := account.cashQuote > 0
    let checks := checks ++ [⟨.availableCash, affordable, .cash account.cashQuote notional⟩]
    if !affordable then
      hold checks "no cash available"
    else
      -- capped by the cash only now: the check above shows the notional before
      let notional := min notional account.cashQuote
      let quantity := quantize (notional / markPrice)
      e.finalise .buy signal quantity markPrice now cycleId checks

/-- `_decide_sell`. -/
def decideSell (e : PolicyEngine) (signal : Signal) (account : AccountState) (markPrice : ℚ)
    (now : Instant) (cycleId : String) (checks : List RiskCheck) :
    Except Error PolicyDecision :=
  let held := account.position.quantity
  let checks := checks ++ [⟨.availableInventory, held > 0, .holding held signal.symbol⟩]
  if held ≤ 0 then
    hold checks "nothing to sell: short selling is not supported"
  else
    let quantity := quantize (held * signal.strength)
    e.finalise .sell signal quantity markPrice now cycleId checks

/-- The verdict on one signal. -/
def decide (e : PolicyEngine) (signal : Signal) (account : AccountState) (markPrice : ℚ)
    (killSwitchEngaged : Bool) (now : Instant) (cycleId : String) :
    Except Error PolicyDecision :=
  if killSwitchEngaged then
    -- nothing else is evaluated, not even the daily loss
    hold [⟨.killSwitch, false, .killSwitchEngaged⟩] "kill switch is engaged"
  else
    let checks : List RiskCheck := [⟨.killSwitch, true, .killSwitchClear⟩]
    let dailyPnl := account.dailyPnlAt markPrice
    let lossBudgetBreached : Bool := dailyPnl ≤ -e.limits.maxDailyLossQuote
    let checks := checks ++
      [⟨.dailyLoss, !lossBudgetBreached, .dailyPnl dailyPnl e.limits.maxDailyLossQuote⟩]
    if lossBudgetBreached then
      hold checks "daily loss limit reached"
    else
      let actionable : Bool := signal.action ≠ .hold
      let checks := checks ++
        [⟨.actionableSignal, actionable, .signalAction signal.action⟩]
      if !actionable then
        -- the strategy's own reason, not one of the engine
        hold checks signal.reason
      else if signal.action = .buy then
        e.decideBuy signal account markPrice now cycleId checks
      else
        e.decideSell signal account markPrice now cycleId checks

/-! ## The side and size the engine approves -/

/-- The truncated size of a buy: the strength's share of the position limit, capped by
    the headroom and the cash, at the mark price. -/
def buyQuantity (limits : RiskLimits) (strength cash held markPrice : ℚ) : ℚ :=
  quantize (min (min (limits.maxPositionQuote * strength)
    (limits.maxPositionQuote - held * markPrice)) cash / markPrice)

/-- The truncated size of a sell: the strength's share of the held quantity. -/
def sellQuantity (strength held : ℚ) : ℚ := quantize (held * strength)

/-- A size that passes the minimum notional. -/
def largeEnough (limits : RiskLimits) (markPrice quantity : ℚ) : Option ℚ :=
  if 0 < quantity ∧ limits.minOrderNotionalQuote ≤ quantity * markPrice then some quantity
  else none

/-- What the engine approves: a side and a size, or nothing. -/
def approved (limits : RiskLimits) (action : SignalAction) (strength cash held dayOpening
    markPrice : ℚ) (killSwitchEngaged : Bool) : Option (OrderSide × ℚ) :=
  if killSwitchEngaged ∨ cash + held * markPrice - dayOpening ≤ -limits.maxDailyLossQuote then
    none
  else
    match action with
    | .hold => none
    | .buy =>
      if 0 < limits.maxPositionQuote - held * markPrice ∧ 0 < cash then
        (largeEnough limits markPrice (buyQuantity limits strength cash held markPrice)).map
          (.buy, ·)
      else none
    | .sell =>
      if 0 < held then
        (largeEnough limits markPrice (sellQuantity strength held)).map (.sell, ·)
      else none

section Approved

variable {limits : RiskLimits} {strength cash held dayOpening markPrice : ℚ}
  {killSwitchEngaged : Bool}

/-- The gates before the signal is looked at: the kill switch and the daily loss. -/
def Refused (limits : RiskLimits) (cash held dayOpening markPrice : ℚ)
    (killSwitchEngaged : Bool) : Prop :=
  killSwitchEngaged ∨ cash + held * markPrice - dayOpening ≤ -limits.maxDailyLossQuote

/-- Behind a closed gate nothing is approved. -/
theorem approved_refused {action : SignalAction}
    (h : Refused limits cash held dayOpening markPrice killSwitchEngaged) :
    approved limits action strength cash held dayOpening markPrice killSwitchEngaged = none := by
  unfold approved
  exact if_pos h

/-- A hold approves nothing. -/
theorem approved_hold :
    approved limits .hold strength cash held dayOpening markPrice killSwitchEngaged = none := by
  simp [approved]

/-- With the gates open, a buy needs room under the limit and cash, and a size that is large
    enough. -/
theorem approved_buy (h : ¬Refused limits cash held dayOpening markPrice killSwitchEngaged) :
    approved limits .buy strength cash held dayOpening markPrice killSwitchEngaged =
      if 0 < limits.maxPositionQuote - held * markPrice ∧ 0 < cash then
        (largeEnough limits markPrice (buyQuantity limits strength cash held markPrice)).map
          (.buy, ·)
      else none := by
  unfold approved
  exact if_neg h

/-- With the gates open, a sell needs a position, and a size that is large enough. -/
theorem approved_sell (h : ¬Refused limits cash held dayOpening markPrice killSwitchEngaged) :
    approved limits .sell strength cash held dayOpening markPrice killSwitchEngaged =
      if 0 < held then
        (largeEnough limits markPrice (sellQuantity strength held)).map (.sell, ·)
      else none := by
  unfold approved
  exact if_neg h

/-- A size is kept as it is if it is positive and worth the smallest order. -/
theorem largeEnough_eq_some {quantity q : ℚ} :
    largeEnough limits markPrice quantity = some q ↔
      q = quantity ∧ 0 < q ∧ limits.minOrderNotionalQuote ≤ q * markPrice := by
  unfold largeEnough
  split
  next h =>
    constructor
    · rintro ⟨⟩
      exact ⟨rfl, h⟩
    · rintro ⟨rfl, -⟩
      rfl
  next h =>
    constructor
    · exact nofun
    · rintro ⟨rfl, hq⟩
      exact absurd hq h

/-- When a buy of some size is approved. -/
theorem approved_eq_buy_iff {action : SignalAction} {q : ℚ} :
    approved limits action strength cash held dayOpening markPrice killSwitchEngaged =
        some (.buy, q) ↔
      action = .buy ∧ ¬Refused limits cash held dayOpening markPrice killSwitchEngaged ∧
        (0 < limits.maxPositionQuote - held * markPrice ∧ 0 < cash) ∧
        q = buyQuantity limits strength cash held markPrice ∧ 0 < q ∧
        limits.minOrderNotionalQuote ≤ q * markPrice := by
  by_cases hrefused : Refused limits cash held dayOpening markPrice killSwitchEngaged
  · simp [approved_refused hrefused, hrefused]
  · cases action with
    | hold => simp [approved_hold]
    | sell =>
      rw [approved_sell hrefused]
      simp [ite_eq_iff]
    | buy =>
      rw [approved_buy hrefused]
      simp [ite_eq_iff, largeEnough_eq_some, hrefused]

/-- When a sell of some size is approved. -/
theorem approved_eq_sell_iff {action : SignalAction} {q : ℚ} :
    approved limits action strength cash held dayOpening markPrice killSwitchEngaged =
        some (.sell, q) ↔
      action = .sell ∧ ¬Refused limits cash held dayOpening markPrice killSwitchEngaged ∧
        0 < held ∧ q = sellQuantity strength held ∧ 0 < q ∧
        limits.minOrderNotionalQuote ≤ q * markPrice := by
  by_cases hrefused : Refused limits cash held dayOpening markPrice killSwitchEngaged
  · simp [approved_refused hrefused, hrefused]
  · cases action with
    | hold => simp [approved_hold]
    | buy =>
      rw [approved_buy hrefused]
      simp [ite_eq_iff]
    | sell =>
      rw [approved_sell hrefused]
      simp [ite_eq_iff, largeEnough_eq_some, hrefused]

/-! ## Bounds on the size -/

/-- A quantized size is on the grid of the quantities. -/
theorem quantize_mem (quantity : ℚ) : quantize quantity ∈ Grid ℚ quantityDigits :=
  truncateTo_mem _ _

/-- A nonnegative notional buys at most what it is worth. -/
private theorem quantize_div_mul_le {notional : ℚ} (hnotional : 0 ≤ notional)
    (hmark : 0 < markPrice) : quantize (notional / markPrice) * markPrice ≤ notional :=
  (le_div_iff₀ hmark).mp (truncateTo_le (div_nonneg hnotional hmark.le))

/-- A buy stays within the strength's share of the limit, the headroom, and the cash. -/
theorem buyQuantity_mul_le (hstrength : 0 ≤ strength) (hmark : 0 < markPrice)
    (hroom : 0 < limits.maxPositionQuote - held * markPrice) (hcash : 0 < cash) :
    buyQuantity limits strength cash held markPrice * markPrice ≤
        limits.maxPositionQuote * strength ∧
      buyQuantity limits strength cash held markPrice * markPrice ≤
        limits.maxPositionQuote - held * markPrice ∧
      buyQuantity limits strength cash held markPrice * markPrice ≤ cash := by
  -- every cap is nonnegative, and truncation only takes away
  have hdesired := mul_nonneg limits.maxPositionQuote_pos.le hstrength
  have hle := quantize_div_mul_le (le_min (le_min hdesired hroom.le) hcash.le) hmark
  obtain ⟨hcapped, hcash⟩ := le_min_iff.mp hle
  obtain ⟨hdesired, hroom⟩ := le_min_iff.mp hcapped
  exact ⟨hdesired, hroom, hcash⟩

/-- A sell stays within the strength's share of the holding. -/
theorem sellQuantity_le (hstrength : 0 ≤ strength) (hheld : 0 < held) :
    sellQuantity strength held ≤ held * strength :=
  truncateTo_le (mul_nonneg hheld.le hstrength)

/-- Whatever is approved is a positive multiple of the venue's step and passes the
    minimum notional. -/
theorem approved_size {action : SignalAction} {side : OrderSide} {q : ℚ}
    (h : approved limits action strength cash held dayOpening markPrice killSwitchEngaged =
      some (side, q)) :
    0 < q ∧ q ∈ Grid ℚ quantityDigits ∧ limits.minOrderNotionalQuote ≤ q * markPrice := by
  cases side with
  | buy =>
    obtain ⟨-, -, -, rfl, hpos, hlarge⟩ := approved_eq_buy_iff.mp h
    exact ⟨hpos, quantize_mem _, hlarge⟩
  | sell =>
    obtain ⟨-, -, -, rfl, hpos, hlarge⟩ := approved_eq_sell_iff.mp h
    exact ⟨hpos, quantize_mem _, hlarge⟩

end Approved

/-- `approved`, read off a signal and an account. -/
def approves (e : PolicyEngine) (signal : Signal) (account : AccountState) (markPrice : ℚ)
    (killSwitchEngaged : Bool) : Option (OrderSide × ℚ) :=
  approved e.limits signal.action signal.strength account.cashQuote account.position.quantity
    account.dayOpeningEquity markPrice killSwitchEngaged

/-- The action that asks for a side. -/
def sideAction : OrderSide → SignalAction
  | .buy => .buy
  | .sell => .sell

/-- An order is only ever approved on the side the signal asks for. -/
theorem approves_action {e : PolicyEngine} {signal : Signal} {account : AccountState}
    {markPrice : ℚ} {killSwitchEngaged : Bool} {side : OrderSide} {q : ℚ}
    (h : e.approves signal account markPrice killSwitchEngaged = some (side, q)) :
    signal.action = sideAction side := by
  cases side with
  | buy => exact (approved_eq_buy_iff.mp h).1
  | sell => exact (approved_eq_sell_iff.mp h).1

/-- The side of an order tells the action. -/
theorem sideAction_injective : Function.Injective sideAction := by
  intro a b h
  cases a <;> cases b <;> first | rfl | exact nomatch h

/-- How a decision renders what was approved: a hold without intent, or a submission
    whose intent has that side and size. -/
def Renders (d : PolicyDecision) (signal : Signal) (markPrice : ℚ) (now : Instant)
    (cycleId : String) : Option (OrderSide × ℚ) → Prop
  | none => d.outcome = .hold ∧ d.intent = none
  | some (side, quantity) => d.outcome = .submit ∧ ∃ i, d.intent = some i ∧
      i.clientOrderId = cycleId ++ "-" ++ side.value ∧ i.symbol = signal.symbol ∧
      i.side = side ∧ i.quantity = quantity ∧ i.referencePrice = markPrice ∧ i.createdAt = now

/-- The record of a decision: all checks of a submission passed, and a hold stops at its
    first failed check. -/
def Recorded (d : PolicyDecision) : Prop :=
  match d.outcome with
  | .submit => ∀ check ∈ d.checks, check.passed = true
  | .hold => ∃ passed failed, d.checks = passed ++ [failed] ∧ failed.passed = false ∧
      ∀ check ∈ passed, check.passed = true

variable {e : PolicyEngine} {signal : Signal} {account : AccountState} {markPrice : ℚ}
  {now : Instant} {cycleId : String} {checks : List RiskCheck} {killSwitchEngaged : Bool}

/-- A refusal is a hold without intent, recorded with the check that failed. -/
private theorem hold_spec (reason : String) (failed : RiskCheck) (hfailed : failed.passed = false)
    (hpassed : ∀ check ∈ checks, check.passed = true) :
    ∃ d, hold (checks ++ [failed]) reason = .ok d ∧ (d.outcome = .hold ∧ d.intent = none) ∧
      Recorded d := by
  have hne : checks ++ [failed] ≠ [] := by simp
  obtain ⟨d, hd, houtcome, -, hchecks, hintent⟩ := PolicyDecision.validate_hold reason hne
  refine ⟨d, hd, ⟨houtcome, hintent⟩, ?_⟩
  rw [Recorded, houtcome]
  exact ⟨checks, failed, hchecks, hfailed, hpassed⟩

/-- One more check that passed. -/
private theorem passed_concat (hpassed : ∀ check ∈ checks, check.passed = true) (check : RiskCheck)
    (hcheck : check.passed = true) : ∀ check' ∈ checks ++ [check], check'.passed = true := by
  rw [List.forall_mem_append, List.forall_mem_singleton]
  exact ⟨hpassed, hcheck⟩

/-- A size that passes the minimum notional is submitted, any other is held. -/
private theorem finalise_spec (side : OrderSide) (quantity : ℚ)
    (hpassed : ∀ check ∈ checks, check.passed = true) :
    ∃ d, e.finalise side signal quantity markPrice now cycleId checks = .ok d ∧
      Renders d signal markPrice now cycleId
        ((largeEnough e.limits markPrice quantity).map (side, ·)) ∧ Recorded d := by
  by_cases hlarge : 0 < quantity ∧ e.limits.minOrderNotionalQuote ≤ quantity * markPrice
  · -- the minimum is positive, so a size that reaches it has a positive price
    have hnotional := e.limits.minOrderNotionalQuote_pos.trans_le hlarge.2
    have hmark : 0 < markPrice := (pos_iff_pos_of_mul_pos hnotional).mp hlarge.1
    have hne : checks ++ [⟨.minNotional, true, .notional (quantity * markPrice)
      e.limits.minOrderNotionalQuote⟩] ≠ [] := by simp
    obtain ⟨d, hd, houtcome, -, hchecks, hintent⟩ :=
      PolicyDecision.validate_submit signal.reason ⟨cycleId ++ "-" ++ side.value,
        signal.symbol, side, quantity, markPrice, now, hlarge.1, hmark⟩ hne
    refine ⟨d, ?_, ?_, ?_⟩
    · simpa [finalise, hlarge, OrderIntent.validate_of_pos hlarge.1 hmark, bind, Except.bind]
        using hd
    · rw [largeEnough, if_pos hlarge]
      exact ⟨houtcome, _, hintent, rfl, rfl, rfl, rfl, rfl, rfl⟩
    · rw [Recorded, houtcome]
      exact hchecks ▸ passed_concat hpassed _ rfl
  · obtain ⟨d, hd, hheld, hrecorded⟩ := hold_spec "order would be below the minimum notional"
      ⟨.minNotional, false, .notional (quantity * markPrice) e.limits.minOrderNotionalQuote⟩ rfl
      hpassed
    refine ⟨d, ?_, by rwa [largeEnough, if_neg hlarge], hrecorded⟩
    simpa [finalise, hlarge] using hd

/-- The decision on a buy renders what is approved, and its record stops at the first failed
    check. -/
private theorem decideBuy_spec (hpassed : ∀ check ∈ checks, check.passed = true) :
    ∃ d, e.decideBuy signal account markPrice now cycleId checks = .ok d ∧
      Renders d signal markPrice now cycleId
        (if 0 < e.limits.maxPositionQuote - account.position.notionalAt markPrice ∧
            0 < account.cashQuote then
          (largeEnough e.limits markPrice (buyQuantity e.limits signal.strength account.cashQuote
            account.position.quantity markPrice)).map (.buy, ·)
        else none) ∧ Recorded d := by
  unfold decideBuy
  -- the two checks of the source in their order, with the record of the ones before
  by_cases hroom : 0 < e.limits.maxPositionQuote - account.position.notionalAt markPrice
  · have hpassed := passed_concat hpassed ⟨.positionLimit, _, .position
      (account.position.notionalAt markPrice) e.limits.maxPositionQuote
      (e.limits.maxPositionQuote - account.position.notionalAt markPrice)⟩ (decide_eq_true hroom)
    rw [if_neg (not_le.mpr hroom)]
    by_cases hcash : 0 < account.cashQuote
    · rw [if_neg (by simpa using hcash), if_pos ⟨hroom, hcash⟩]
      exact finalise_spec .buy _ (passed_concat hpassed _ (decide_eq_true hcash))
    · rw [if_pos (by simpa using hcash), if_neg (fun h => hcash h.2)]
      exact hold_spec "no cash available" _ (decide_eq_false hcash) hpassed
  · rw [if_pos (not_lt.mp hroom), if_neg (fun h => hroom h.1)]
    exact hold_spec "position limit reached" _ (decide_eq_false hroom) hpassed

/-- The decision on a sell renders what is approved, and its record stops at the first failed
    check. -/
private theorem decideSell_spec (hpassed : ∀ check ∈ checks, check.passed = true) :
    ∃ d, e.decideSell signal account markPrice now cycleId checks = .ok d ∧
      Renders d signal markPrice now cycleId
        (if 0 < account.position.quantity then
          (largeEnough e.limits markPrice (sellQuantity signal.strength
            account.position.quantity)).map (.sell, ·)
        else none) ∧ Recorded d := by
  unfold decideSell
  by_cases hheld : 0 < account.position.quantity
  · rw [if_neg (not_le.mpr hheld), if_pos hheld]
    exact finalise_spec .sell _ (passed_concat hpassed _ (decide_eq_true hheld))
  · rw [if_pos (not_lt.mp hheld), if_neg hheld]
    exact hold_spec "nothing to sell: short selling is not supported" _ (decide_eq_false hheld)
      hpassed

/-- The engine never raises. Its decision renders exactly what is approved, with a record of
    its checks that stops at the first one that failed. -/
theorem decide_recorded (e : PolicyEngine) (signal : Signal) (account : AccountState)
    (markPrice : ℚ) (killSwitchEngaged : Bool) (now : Instant) (cycleId : String) :
    ∃ d, e.decide signal account markPrice killSwitchEngaged now cycleId = .ok d ∧
      Renders d signal markPrice now cycleId
        (e.approves signal account markPrice killSwitchEngaged) ∧ Recorded d := by
  unfold decide approves
  have hnone : ∀ check ∈ ([] : List RiskCheck), check.passed = true := by simp
  -- the gates in the order of the source, then one case for each action
  cases killSwitchEngaged with
  | true =>
    rw [approved_refused (.inl rfl)]
    exact hold_spec "kill switch is engaged" _ rfl hnone
  | false =>
    have hclear := passed_concat hnone ⟨.killSwitch, true, .killSwitchClear⟩ rfl
    rw [if_neg Bool.false_ne_true]
    by_cases hloss : account.dailyPnlAt markPrice ≤ -e.limits.maxDailyLossQuote
    · rw [approved_refused (.inr hloss), if_pos (decide_eq_true hloss)]
      exact hold_spec "daily loss limit reached" _ (by simp [hloss]) hclear
    · have hopen := not_or.mpr ⟨Bool.false_ne_true, hloss⟩
      have hwithin : Decidable.decide (account.dailyPnlAt markPrice ≤
          -e.limits.maxDailyLossQuote) = false := decide_eq_false hloss
      have hbudget := passed_concat hclear ⟨.dailyLoss, !false,
        .dailyPnl (account.dailyPnlAt markPrice) e.limits.maxDailyLossQuote⟩ rfl
      simp only [hwithin, Bool.false_eq_true, if_false]
      cases haction : signal.action with
      | hold =>
        rw [approved_hold]
        exact hold_spec signal.reason _ rfl hbudget
      | buy =>
        rw [approved_buy hopen]
        exact decideBuy_spec (passed_concat hbudget _ rfl)
      | sell =>
        rw [approved_sell hopen]
        exact decideSell_spec (passed_concat hbudget _ rfl)

/-- The engine never raises, and its decision renders exactly what is approved. -/
theorem decide_spec (e : PolicyEngine) (signal : Signal) (account : AccountState)
    (markPrice : ℚ) (killSwitchEngaged : Bool) (now : Instant) (cycleId : String) :
    ∃ d, e.decide signal account markPrice killSwitchEngaged now cycleId = .ok d ∧
      Renders d signal markPrice now cycleId
        (e.approves signal account markPrice killSwitchEngaged) := by
  obtain ⟨d, hd, hrenders, -⟩ :=
    e.decide_recorded signal account markPrice killSwitchEngaged now cycleId
  exact ⟨d, hd, hrenders⟩

/-- The intent of a decision has the side and size that were approved, under the id of
    its cycle, for the symbol of the signal, at the mark price. -/
theorem Renders.intent_eq {d : PolicyDecision} {approved : Option (OrderSide × ℚ)}
    (h : Renders d signal markPrice now cycleId approved) {i : OrderIntent}
    (hi : d.intent = some i) :
    approved = some (i.side, i.quantity) ∧
      i.clientOrderId = cycleId ++ "-" ++ i.side.value ∧ i.symbol = signal.symbol ∧
      i.referencePrice = markPrice := by
  cases approved with
  | none => simp [h.2] at hi
  | some approved =>
    obtain ⟨-, j, hj, hid, hsym, hside, hqty, hprice, -⟩ := h
    cases hj.symm.trans hi
    exact ⟨by rw [hside, hqty], hside ▸ hid, hsym, hprice⟩

end PolicyEngine

end TradingBot
