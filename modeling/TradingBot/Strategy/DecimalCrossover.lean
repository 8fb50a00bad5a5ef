import TradingBot.Python.Decimal
import TradingBot.Strategy.SmaCrossover

/-!
# The crossover in a decimal context

The averages, their spread and the strength, over decimal operations that round and signal.
With exact operations it is the strategy itself; with those of the default context of Python
every sum, average and ratio has 28 significant digits.
-/

namespace TradingBot

variable (A : DecimalContext)

/-- `_mean`. -/
def meanIn (values : List ℚ) : Except Error ℚ := A.div (sumIn A values) values.length

namespace SmaCrossoverStrategy

variable (s : SmaCrossoverStrategy)

/-- `_strength`. -/
def strengthIn (fast slow : ℚ) : Except Error ℚ := do
  let spreadRatio ← A.div (A.abs (A.sub fast slow)) slow
  let scaled ← A.div spreadRatio s.strengthScaleRatio
  -- taking a minimum compares exactly, whatever the context
  return min 1 scaled

def evaluateIn (snapshot : MarketSnapshot) : Except Error Signal := do
  let closes := snapshot.candles.map Candle.close
  let required := s.slowWindow + 1
  if closes.length < required then
    s.hold snapshot ("not enough history: " ++ toString closes.length ++ " candles, " ++
      toString required ++ " required")
  else
    let currentFast ← meanIn A (lastValues s.fastWindow closes)
    let currentSlow ← meanIn A (lastValues s.slowWindow closes)
    let previousFast ← meanIn A (lastValues s.fastWindow closes.dropLast)
    let previousSlow ← meanIn A (lastValues s.slowWindow closes.dropLast)
    -- comparisons are exact, whatever the context
    let crossedUp : Bool := previousFast ≤ previousSlow ∧ currentFast > currentSlow
    let crossedDown : Bool := previousFast ≥ previousSlow ∧ currentFast < currentSlow
    if !(crossedUp || crossedDown) then
      s.hold snapshot "no crossover on the latest candle"
    else
      let action := if crossedUp then .buy else .sell
      let strength ← s.strengthIn A currentFast currentSlow
      Signal.validate snapshot.symbol action strength snapshot.asOf s.name
        (if crossedUp then "fast average crossed above slow" else "fast average crossed below slow")

/-- The strategy as the cycle takes it. -/
def strategyIn : Strategy := ⟨s.name, s.evaluateIn A⟩

end SmaCrossoverStrategy

/-! ## Exact operations -/

/-- The exact context takes the mean and signals nothing. -/
theorem meanIn_exact (values : List ℚ) : meanIn .exact values = .ok (mean values) := by
  show Except.ok (sumIn .exact values / (values.length : ℚ)) = _
  rw [sumIn_exact, mean]

namespace SmaCrossoverStrategy

/-- With exact operations the strategy is the one of the other model. -/
theorem evaluateIn_exact (s : SmaCrossoverStrategy) : s.evaluateIn .exact = s.evaluate := by
  funext snapshot
  simp only [evaluateIn, meanIn_exact, evaluate]
  rfl

/-- In the exact context the strategy is the exact one. -/
@[simp] theorem strategyIn_exact (s : SmaCrossoverStrategy) : s.strategyIn .exact = s.strategy :=
  congrArg (Strategy.mk s.name) s.evaluateIn_exact

end SmaCrossoverStrategy

end TradingBot
