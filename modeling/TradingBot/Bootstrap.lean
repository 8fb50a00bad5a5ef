import TradingBot.Config
import TradingBot.Exchange.Simulated
import TradingBot.Observability.Telemetry
import TradingBot.Strategy.DecimalCrossover

/-!
# The composition root

The cycle that the settings describe. What lies outside the process enters as the
surroundings of one run: the random generator, the readings of the clock, and the
constructor of the sandbox exchange, whose client is a third-party library. The decimals of
the cycle are computed in a context, the exact one where none is named.
-/

namespace TradingBot

/-- What a run finds around it. -/
structure Surroundings where
  random : String → ℕ → CandleDraws
  /-- The clock of the cycle, and of the simulator when it fetches and when it fills. -/
  clock : Instant
  fetchClock : Instant
  submitClock : Instant
  /-- The sandbox exchange for an exchange id, a key, a secret and the sandbox flag. -/
  ccxtSandboxExchange : String → String → String → Bool → Except Error Gateway

namespace Settings

/-- The simulated exchange of the settings. -/
def simulatedExchange (settings : Settings) (random : String → ℕ → CandleDraws) :
    SimulatedExchange where
  seed := settings.simulatorSeed
  startPrice := settings.simulatorStartPrice
  volatilityBps := settings.simulatorVolatilityBps
  feeBps := settings.feeBps
  slippageBps := settings.slippageBps
  random := random

/-- Select the venue. -/
def buildGateway (settings : Settings) (around : Surroundings) (A : DecimalContext := .exact) :
    Except Error Gateway :=
  match settings.exchangeBackend with
  | .simulated =>
    .ok ((settings.simulatedExchange around.random).gateway around.fetchClock around.submitClock A)
  | .ccxtSandbox =>
    match settings.exchangeApiKey, settings.exchangeApiSecret with
    | some key, some secret =>
      around.ccxtSandboxExchange settings.exchangeId key secret settings.sandbox
    | _, _ => .error (.configurationError "exchange credentials are missing" none)

/-- The answer of the static kill switch. -/
def buildKillSwitch (settings : Settings) : Bool := settings.killSwitch

def buildTelemetryExporter (settings : Settings)
    (azureMonitor : String → Except Error TelemetryExporter) : TelemetryExporter :=
  buildTelemetry azureMonitor settings.applicationinsightsConnectionString

def buildCycle (settings : Settings) (around : Surroundings) (telemetry : Telemetry)
    (A : DecimalContext := .exact) : Except Error TradingCycle := do
  let limits ← RiskLimits.validate settings.maxPositionQuote settings.maxDailyLossQuote
    settings.minOrderNotionalQuote
  let gateway ← settings.buildGateway around A
  -- the strength scale is the default of the strategy
  let strategy ← SmaCrossoverStrategy.create settings.smaFast settings.smaSlow (1 / 100)
  return { gateway, strategy := strategy.strategyIn A, policy := ⟨limits⟩
           killSwitch := settings.buildKillSwitch, telemetry, symbol := settings.symbol
           timeframe := settings.timeframe, candleLimit := settings.candleLimit
           initialCashQuote := settings.initialCashQuote, clock := around.clock }

end Settings

end TradingBot
