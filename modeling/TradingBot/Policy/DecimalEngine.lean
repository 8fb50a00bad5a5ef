import TradingBot.Execution.DecimalLedger
import TradingBot.Policy.DecimalContext

/-!
# The verdict in a decimal context

The profit of the day, the drawdown and the verdict on a signal, over decimal operations that
round and signal. With exact operations it is the engine itself.
-/

namespace TradingBot

variable (A : DecimalContext)

/-- `daily_pnl_at`. -/
def AccountState.dailyPnlAtIn (a : AccountState) (price : ℚ) : ℚ :=
  A.sub (equityIn A a.cashQuote a.position price) a.dayOpeningEquity

/-- `drawdown_ratio`. The opening equity is positive, so the division does not signal. -/
def EquitySnapshot.drawdownRatioIn (e : EquitySnapshot) : ℚ :=
  let loss := A.sub e.dayOpeningEquity e.equityQuote
  if loss ≤ 0 then 0 else (A.div loss e.dayOpeningEquity).toOption.getD 0

namespace PolicyEngine

/-- `decide`. -/
def decideIn (e : PolicyEngine) (signal : Signal) (account : AccountState) (markPrice : ℚ)
    (killSwitchEngaged : Bool) (now : Instant) (cycleId : String) :
    Except Error PolicyDecision :=
  if killSwitchEngaged then
    hold [⟨.killSwitch, false, .killSwitchEngaged⟩] "kill switch is engaged"
  else
    let checks : List RiskCheck := [⟨.killSwitch, true, .killSwitchClear⟩]
    let dailyPnl := account.dailyPnlAtIn A markPrice
    let lossBudgetBreached : Bool := dailyPnl ≤ A.neg e.limits.maxDailyLossQuote
    let checks := checks ++
      [⟨.dailyLoss, !lossBudgetBreached, .dailyPnl dailyPnl e.limits.maxDailyLossQuote⟩]
    if lossBudgetBreached then
      hold checks "daily loss limit reached"
    else
      let actionable : Bool := signal.action ≠ .hold
      let checks := checks ++
        [⟨.actionableSignal, actionable, .signalAction signal.action⟩]
      if !actionable then
        hold checks signal.reason
      else if signal.action = .buy then
        e.decideBuyIn A.toDecimalArithmetic signal account markPrice now cycleId checks
      else
        e.decideSellIn A.toDecimalArithmetic signal account markPrice now cycleId checks

/-! ## Exact operations -/

/-- With exact operations the verdict is that of the engine. -/
theorem decideIn_exact : decideIn .exact = decide := rfl

end PolicyEngine

/-- With exact operations the drawdown is that of the snapshot. -/
theorem EquitySnapshot.drawdownRatioIn_exact (e : EquitySnapshot) :
    e.drawdownRatioIn .exact = e.drawdownRatio := rfl

end TradingBot
