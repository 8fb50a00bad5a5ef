import TradingBot.Spec.Ledger

/-!
# Cycles to run

Builders for the cycles that examples and counterexamples run: a market that stands
still, a gateway with scripted candles, a strategy that always says the same, and a
cycle with the settings that do not matter filled in.
-/

namespace TradingBot

/-- Draws that leave the price alone. -/
def stillDraws : CandleDraws := ⟨0, 0, 0, 1, by decide⟩

/-- A simulated exchange whose generator draws nothing but zeros: the price never moves. -/
def flatMarket (price feeBps slippageBps : ℚ) : SimulatedExchange where
  seed := 42
  startPrice := price
  volatilityBps := 0
  feeBps := feeBps
  slippageBps := slippageBps
  random _ _ := stillDraws

/-- A strategy that answers every snapshot with one action and strength. -/
def fixedStrategy (action : SignalAction) (strength : ℚ) : Strategy where
  name := "fixed"
  evaluate snapshot :=
    Signal.validate snapshot.symbol action strength snapshot.asOf "fixed" "as scripted"

/-- A gateway with scripted closes, in bars of fifteen minutes of which the last closes
    `now`. It fills every order at its reference price, without a fee. -/
def stubExchange (closes : List ℚ) (now : Instant) : Gateway where
  fetchSnapshot symbol timeframe limit := do
    let closes := lastValues limit closes
    let firstOpen := now - 900000000 * closes.length
    let candles ← closes.zipIdx.mapM fun (close, index) =>
      Candle.validate symbol (firstOpen + 900000000 * index) close close close close 1
    MarketSnapshot.validate symbol timeframe candles
  submit intent := do
    let fill ← Fill.validate intent.clientOrderId intent.symbol intent.side intent.quantity
      intent.referencePrice 0 now
    return { intent, status := .filled, venueOrderId := some ("stub-" ++ intent.clientOrderId)
             fills := [fill], rejectionReason := none }
  submit_intent intent a h := by
    obtain ⟨fill, -, h⟩ := Except.bind_eq_ok.mp h
    cases h
    rfl

/-- The crossover strategy with windows of two and four bars. -/
def twoAndFour : SmaCrossoverStrategy := ⟨2, 4, 1 / 100, by norm_num, by norm_num, by norm_num⟩

def crossover : Strategy := twoAndFour.strategy

/-- The limits of the default settings. -/
def defaultLimits : RiskLimits where
  maxPositionQuote := 1000
  maxDailyLossQuote := 100
  minOrderNotionalQuote := 10
  maxPositionQuote_pos := by norm_num
  maxDailyLossQuote_pos := by norm_num
  minOrderNotionalQuote_pos := by norm_num

/-- Limits that leave the cash as the only bound. -/
def wideLimits : RiskLimits where
  maxPositionQuote := 100000
  maxDailyLossQuote := 100000
  minOrderNotionalQuote := 10
  maxPositionQuote_pos := by norm_num
  maxDailyLossQuote_pos := by norm_num
  minOrderNotionalQuote_pos := by norm_num

/-- Noon of the first day of 2026. -/
def noon : Instant := 1767268800 * 1000000

/-- A cycle of fifteen-minute bars. -/
def buildCycle (gateway : Gateway) (strategy : Strategy) (limits : RiskLimits)
    (initialCashQuote : ℚ) (clock : Instant) : TradingCycle where
  gateway := gateway
  strategy := strategy
  policy := ⟨limits⟩
  killSwitch := false
  telemetry := nullTelemetry
  symbol := "BTC/USDT"
  timeframe := "15m"
  candleLimit := 9
  initialCashQuote := initialCashQuote
  clock := clock

/-- A cycle on a simulated exchange that reads the same clock. -/
def simulatedCycle (x : SimulatedExchange) (strategy : Strategy) (limits : RiskLimits)
    (initialCashQuote : ℚ) (clock : Instant) (A : DecimalContext := .exact) : TradingCycle :=
  buildCycle (x.gateway clock clock A) strategy limits initialCashQuote clock

/-- A buy at noon and a sale of the whole holding one bar later, at a cost. -/
def buyThenSell : List TradingCycle :=
  let market := flatMarket 100 10 5
  [simulatedCycle market (fixedStrategy .buy (1 / 2)) defaultLimits 10000 noon,
    simulatedCycle market (fixedStrategy .sell 1) defaultLimits 10000 (noon + 900000000)]

/-- A cycle on the bar that closes at noon, with the close it fetches after eight closes
    of 100. -/
def noonCycle (close : ℚ) (clock : Instant) : TradingCycle :=
  let flat : List ℚ := List.replicate 8 100
  buildCycle (stubExchange (flat ++ [close]) noon) crossover wideLimits 10000 clock

/-- Two cycles on the bar that closes at noon, a minute apart. -/
def noonBar (first second : ℚ) : List TradingCycle :=
  [noonCycle first noon, noonCycle second (noon + 60000000)]

/-- A simulated cycle is on its simulator. -/
theorem simulatedCycle_onSimulator (x : SimulatedExchange) (strategy : Strategy)
    (limits : RiskLimits) (initial : ℚ) (clock : Instant) :
    (simulatedCycle x strategy limits initial clock).OnSimulator x "BTC/USDT" initial :=
  ⟨rfl, rfl, clock, clock, rfl⟩

/-- Both cycles are on a simulator. -/
theorem buyThenSell_onSimulator : ∀ c ∈ buyThenSell, ∃ x, c.OnSimulator x "BTC/USDT" 10000 := by
  simp only [buyThenSell, List.forall_mem_cons]
  exact ⟨⟨_, simulatedCycle_onSimulator _ _ _ _ _⟩, ⟨_, simulatedCycle_onSimulator _ _ _ _ _⟩,
    nofun⟩

end TradingBot
