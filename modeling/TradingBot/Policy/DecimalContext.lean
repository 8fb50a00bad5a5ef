import TradingBot.Policy.Engine
import TradingBot.Python.Decimal

/-!
# Sizing in a decimal context

The sizing of the engine over decimal operations that round and signal. With exact
operations it is the engine itself.
-/

namespace TradingBot

namespace PolicyEngine

variable (A : DecimalArithmetic)

/-- `_finalise`. -/
def finaliseIn (e : PolicyEngine) (side : OrderSide) (signal : Signal) (quantity markPrice : ℚ)
    (now : Instant) (cycleId : String) (checks : List RiskCheck) :
    Except Error PolicyDecision := do
  let notional := A.mul quantity markPrice
  let largeEnough : Bool := quantity > 0 ∧ notional ≥ e.limits.minOrderNotionalQuote
  let checks := checks ++
    [⟨.minNotional, largeEnough, .notional notional e.limits.minOrderNotionalQuote⟩]
  if !largeEnough then
    hold checks "order would be below the minimum notional"
  else
    let intent ← OrderIntent.validate (cycleId ++ "-" ++ side.value) signal.symbol side quantity
      markPrice now
    PolicyDecision.validate .submit signal.reason checks (some intent)

/-- `_decide_buy`. -/
def decideBuyIn (e : PolicyEngine) (signal : Signal) (account : AccountState) (markPrice : ℚ)
    (now : Instant) (cycleId : String) (checks : List RiskCheck) :
    Except Error PolicyDecision := do
  let heldNotional := A.mul account.position.quantity markPrice
  let headroom := A.sub e.limits.maxPositionQuote heldNotional
  let checks := checks ++
    [⟨.positionLimit, headroom > 0, .position heldNotional e.limits.maxPositionQuote headroom⟩]
  if headroom ≤ 0 then
    hold checks "position limit reached"
  else
    let desired := A.mul e.limits.maxPositionQuote signal.strength
    let notional := min desired headroom
    let affordable : Bool := account.cashQuote > 0
    let checks := checks ++ [⟨.availableCash, affordable, .cash account.cashQuote notional⟩]
    if !affordable then
      hold checks "no cash available"
    else
      -- taking a minimum compares exactly, whatever the context
      let notional := min notional account.cashQuote
      let quotient ← A.div notional markPrice
      let quantity ← A.quantize quantityDigits quotient
      finaliseIn A e .buy signal quantity markPrice now cycleId checks

/-- `_decide_sell`. -/
def decideSellIn (e : PolicyEngine) (signal : Signal) (account : AccountState) (markPrice : ℚ)
    (now : Instant) (cycleId : String) (checks : List RiskCheck) :
    Except Error PolicyDecision := do
  let held := account.position.quantity
  let checks := checks ++ [⟨.availableInventory, held > 0, .holding held signal.symbol⟩]
  if held ≤ 0 then
    hold checks "nothing to sell: short selling is not supported"
  else
    let quantity ← A.quantize quantityDigits (A.mul held signal.strength)
    finaliseIn A e .sell signal quantity markPrice now cycleId checks

section Exact

variable (e : PolicyEngine) (signal : Signal) (account : AccountState) (markPrice : ℚ)
  (now : Instant) (cycleId : String) (checks : List RiskCheck)

/-- With exact operations the sizing is that of the engine. -/
theorem decideBuyIn_exact :
    decideBuyIn .exact e signal account markPrice now cycleId checks =
      e.decideBuy signal account markPrice now cycleId checks :=
  rfl

/-- The same for a sell. -/
theorem decideSellIn_exact :
    decideSellIn .exact e signal account markPrice now cycleId checks =
      e.decideSell signal account markPrice now cycleId checks :=
  rfl

end Exact

end PolicyEngine

end TradingBot
