import TradingBot.Exchange.Base
import TradingBot.Exchange.Timestamps
import TradingBot.Persistence.Repository
import TradingBot.Policy.DecimalEngine
import TradingBot.Strategy.SmaCrossover

/-!
# The trading cycle

One pass of the pipeline: market data, signal, policy, execution, persistence. A cycle
is a function of the rows its session reads. It ends with an exception or with the
transaction it leaves pending, and in both cases it reports the intents it handed to
`gateway.submit`: an order that was sent stays sent when the cycle raises afterwards.

The cycle is written in the stages in which it touches the database: `prepare` reads
the account, `execute` looks for an earlier order and sends the new one, `conclude`
records the equity. `job` is the whole run with its commit.

The decimals of a run are computed in a context, which comes last and is the exact one
where none is named. The process itself runs in the default context of Python.
-/

namespace TradingBot

/-- Records what the cycle did. Each call may raise. Durations are left out. -/
structure Telemetry where
  recordEquity : ℚ → ℚ → String → Except Error Unit
  recordDecision : DecisionOutcome → String → Except Error Unit
  recordOrderLatency : String → OrderSide → Except Error Unit
  recordCycleDuration : String → Except Error Unit

/-- Telemetry that records nothing. -/
def nullTelemetry : Telemetry where
  recordEquity _ _ _ := .ok ()
  recordDecision _ _ := .ok ()
  recordOrderLatency _ _ := .ok ()
  recordCycleDuration _ := .ok ()

def maxSnapshotAgeFactor : ℤ := 3

/-- `_NON_ALPHANUMERIC.sub("", symbol).upper()`. -/
def stripSymbol (symbol : String) : String :=
  String.ofList ((symbol.toList.filter Char.isAlphanum).map Char.toUpper)

/-- `int(moment.timestamp())`. -/
def epochSeconds (moment : Instant) : ℤ := FixedPoint.truncate (timestamp moment)

/-- Identify a cycle by the bar it acted on, not by the wall clock. -/
def buildCycleId (snapshot : MarketSnapshot) : String :=
  let symbol := stripSymbol snapshot.symbol
  let barEpoch := epochSeconds snapshot.asOf
  symbol ++ "-" ++ snapshot.timeframe ++ "-" ++ toString barEpoch

/-- A cycle with everything it was built from. `killSwitch` is the answer of
    `is_engaged` and `clock` the reading of the clock in this run. -/
structure TradingCycle where
  gateway : Gateway
  strategy : Strategy
  policy : PolicyEngine
  killSwitch : Bool
  telemetry : Telemetry
  symbol : String
  timeframe : String
  candleLimit : ℕ
  initialCashQuote : ℚ
  clock : Instant

structure CycleResult where
  cycleId : String
  signal : Signal
  decision : PolicyDecision
  execution : Option OrderExecution
  equity : EquitySnapshot
  duplicateSuppressed : Bool
  deriving Repr

/-- A computation that may submit orders: the intents submitted so far, whether or not
    an exception follows. -/
abbrev CycleM := ExceptT Error (StateM (List OrderIntent))

/-- What a cycle knows when it has taken its decision. -/
structure Prepared where
  snapshot : MarketSnapshot
  cycleId : String
  markPrice : ℚ
  signal : Signal
  account : AccountState
  decision : PolicyDecision
  deriving Repr

/-- What acting on the decision leaves: the ledger to record and the rows to write. -/
structure Settlement where
  cash : ℚ
  position : Position
  execution : Option OrderExecution
  duplicateSuppressed : Bool
  order : Option OrderRecord
  fills : List FillRecord
  write : Option PositionWrite
  deriving Repr

/-- Nothing was executed: the ledger is the one that was loaded. -/
def Settlement.unchanged (account : AccountState) (duplicateSuppressed : Bool) : Settlement where
  cash := account.cashQuote
  position := account.position
  execution := none
  duplicateSuppressed := duplicateSuppressed
  order := none
  fills := []
  write := none

/-- What an execution settles to, before the position is saved. -/
structure Executed where
  execution : OrderExecution
  order : OrderRecord
  fills : List FillRecord
  cash : ℚ
  position : Position
  deriving Repr

namespace TradingCycle

/-- Hand an intent to the gateway. -/
def submit (c : TradingCycle) (intent : OrderIntent) : CycleM OrderExecution := do
  modify (· ++ [intent])
  c.gateway.submit intent

/-- From the clock reading to the decision: market data, signal, account, policy. -/
def prepare (c : TradingCycle) (db : Database) (A : DecimalContext := .exact) :
    Except Error Prepared := do
  let snapshot ← c.gateway.fetchSnapshot c.symbol c.timeframe c.candleLimit
  -- a venue that keeps answering with old data is not traded on
  if ← isStale snapshot.asOf c.timeframe c.clock maxSnapshotAgeFactor then
    throw (.staleMarketData snapshot.asOf c.clock)
  let cycleId := buildCycleId snapshot
  let markPrice := snapshot.lastPrice
  let signal ← c.strategy.evaluate snapshot
  -- the first query for the account writes the signal
  autoflush (recordSignal cycleId signal).storable
  let account ← db.loadAccountState c.symbol c.initialCashQuote markPrice c.clock A
  let decision ← c.policy.decideIn A signal account markPrice c.killSwitch c.clock cycleId
  return { snapshot, cycleId, markPrice, signal, account, decision }

/-- Send an order that is not yet known, and fold the answer into the ledger. -/
def send (c : TradingCycle) (p : Prepared) (intent : OrderIntent)
    (A : DecimalContext := .exact) : CycleM Executed := do
  -- from here on the order is out, whatever raises
  let execution ← c.submit intent
  c.telemetry.recordOrderLatency c.symbol intent.side
  let (order, fills) := recordExecution p.cycleId p.decision execution
  let update ← applyExecutionIn A p.account.cashQuote p.account.position execution
  -- the query for the position writes the order and its fills
  autoflush (order.storable && fills.all FillRecord.storable)
  return { execution, order, fills, cash := update.cashQuote, position := update.position }

/-- The settlement of an execution, once the session has looked up the positions row. -/
def settle (c : TradingCycle) (db : Database) (x : Executed) : Settlement where
  cash := x.cash
  position := x.position
  execution := some x.execution
  duplicateSuppressed := false
  order := some x.order
  fills := x.fills
  write := some (savePosition db x.position c.clock)

/-- Act on the decision. -/
def execute (c : TradingCycle) (db : Database) (p : Prepared) (A : DecimalContext := .exact) :
    CycleM Settlement := do
  match p.decision.outcome with
  | .hold => return .unchanged p.account false
  | .submit =>
    match p.decision.intent with
    | none => throw (.tradingBotError "a submit decision reached execution without an intent")
    | some intent =>
      if db.alreadyExecuted intent.clientOrderId then
        -- suppressed: neither an order nor a position is written
        return .unchanged p.account true
      else
        let x ← c.send p intent A
        return c.settle db x

/-- Record the equity and hand back the result with the pending transaction. -/
def conclude (c : TradingCycle) (p : Prepared) (s : Settlement) (A : DecimalContext := .exact) :
    Except Error (CycleResult × Transaction) := do
  -- every path ends here, also the ones that executed nothing
  let equity ← EquitySnapshot.validate c.clock c.symbol p.markPrice s.cash s.position.quantity
    (equityIn A s.cash s.position p.markPrice) p.account.dayOpeningEquity
  c.telemetry.recordDecision p.decision.outcome c.symbol
  c.telemetry.recordEquity equity.equityQuote (equity.drawdownRatioIn A) c.symbol
  c.telemetry.recordCycleDuration c.symbol
  return ({ cycleId := p.cycleId, signal := p.signal, decision := p.decision
            execution := s.execution, equity, duplicateSuppressed := s.duplicateSuppressed },
    { signal := recordSignal p.cycleId p.signal, order := s.order, fills := s.fills
      position := s.write, equity := recordEquitySnapshot p.cycleId equity })

/-- One run of the cycle over the rows its session reads. -/
def run (c : TradingCycle) (db : Database) (A : DecimalContext := .exact) :
    CycleM (CycleResult × Transaction) := do
  let p ← c.prepare db A
  let s ← c.execute db p A
  c.conclude p s A

/-- One job execution: the cycle and the commit of its session. -/
def job (c : TradingCycle) (db : Database) (A : DecimalContext := .exact) :
    CycleM (CycleResult × Database) := do
  let (result, tx) ← c.run db A
  let db' ← tx.commitSession db
  return (result, db')

end TradingCycle

end TradingBot
