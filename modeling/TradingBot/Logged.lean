import TradingBot.Main
import TradingBot.Observability.Events

/-!
# What a process logs

The cycle and the entry point again, this time with the lines they write. A process is seen
from outside as a sequence of effects, the lines it writes and the commit of its session,
which a kill cuts off anywhere.
-/

namespace TradingBot

/-- What a run leaves behind whatever becomes of it: the intents it submitted and the events
    it logged. -/
structure Trail where
  submitted : List OrderIntent
  events : List LogEvent

/-- A computation that may submit orders and log events. -/
abbrev LoggedM := ExceptT Error (StateM Trail)

/-- `logger.info` and its siblings. -/
def log (event : LogEvent) : LoggedM Unit :=
  modify fun trail => { trail with events := trail.events ++ [event] }

namespace TradingCycle

def decisionEvent (c : TradingCycle) (p : Prepared) : LogEvent :=
  .decision p.cycleId c.symbol p.markPrice p.signal.action p.signal.strength p.decision.outcome
    p.decision.reason c.killSwitch (p.decision.failedChecks.map (·.name))

/-- Send an order that is not yet known, fold the answer into the ledger and save the
    position. -/
def sendLogged (c : TradingCycle) (db : Database) (p : Prepared) (intent : OrderIntent)
    (A : DecimalContext := .exact) : LoggedM Settlement := do
  modify fun trail => { trail with submitted := trail.submitted ++ [intent] }
  let execution ← c.gateway.submit intent
  c.telemetry.recordOrderLatency c.symbol intent.side
  let (order, fills) := recordExecution p.cycleId p.decision execution
  let update ← applyExecutionIn A p.account.cashQuote p.account.position execution
  autoflush (order.storable && fills.all FillRecord.storable)
  let settlement := c.settle db
    { execution, order, fills, cash := update.cashQuote, position := update.position }
  log (.executed p.cycleId intent.clientOrderId execution.status
    (execution.filledQuantityIn A) update.feesQuote)
  return settlement

/-- Act on the decision. -/
def executeLogged (c : TradingCycle) (db : Database) (p : Prepared)
    (A : DecimalContext := .exact) : LoggedM Settlement := do
  match p.decision.outcome with
  | .hold => return .unchanged p.account false
  | .submit =>
    match p.decision.intent with
    | none => throw (.tradingBotError "a submit decision reached execution without an intent")
    | some intent =>
      if db.alreadyExecuted intent.clientOrderId then
        log (.duplicateSuppressed p.cycleId intent.clientOrderId)
        return .unchanged p.account true
      else
        c.sendLogged db p intent A

/-- Record the equity and hand back the result with the pending transaction. -/
def concludeLogged (c : TradingCycle) (p : Prepared) (s : Settlement)
    (A : DecimalContext := .exact) : LoggedM (CycleResult × Transaction) := do
  let equity ← EquitySnapshot.validate c.clock c.symbol p.markPrice s.cash s.position.quantity
    (equityIn A s.cash s.position p.markPrice) p.account.dayOpeningEquity
  c.telemetry.recordDecision p.decision.outcome c.symbol
  c.telemetry.recordEquity equity.equityQuote (equity.drawdownRatioIn A) c.symbol
  -- nothing is committed yet
  log (.completed p.cycleId equity.equityQuote equity.cashQuote equity.positionQuantity
    (equity.drawdownRatioIn A))
  c.telemetry.recordCycleDuration c.symbol
  return ({ cycleId := p.cycleId, signal := p.signal, decision := p.decision
            execution := s.execution, equity, duplicateSuppressed := s.duplicateSuppressed },
    { signal := recordSignal p.cycleId p.signal, order := s.order, fills := s.fills
      position := s.write, equity := recordEquitySnapshot p.cycleId equity })

/-- One job execution: the cycle and the commit of its session. -/
def jobLogged (c : TradingCycle) (db : Database) (A : DecimalContext := .exact) :
    LoggedM (CycleResult × Database) := do
  let p ← c.prepare db A
  log (c.decisionEvent p)
  let s ← c.executeLogged db p A
  let (result, tx) ← c.concludeLogged p s A
  let db' ← tx.commitSession db
  return (result, db')

end TradingCycle

/-! ## Processes -/

/-- `isinstance(error, TradingBotError)`. -/
def Error.isTradingBotError : Error → Bool
  | tradingBotError _ | sandboxGuardError _ | configurationError _ _ | exchangeError _
  | staleMarketData _ _ => true
  | _ => false

/-- The event of a failure. -/
def failureEvent (e : Error) : LogEvent :=
  if e.isTradingBotError then .failed e.typeName e else .crashed e.typeName e

/-- One start of the container. -/
structure Invocation where
  settings : Settings
  around : Surroundings
  telemetry : TelemetryExporter
  logLevel : LogLevel

/-- What can be seen of a process from outside. -/
inductive Effect where
  | line (event : LogEvent)
  | commit (db : Database)

namespace Invocation

/-- Build the cycle, run it and commit its session. -/
def session (i : Invocation) (db : Database) :
    Except Error (CycleResult × Database) × Trail :=
  match i.settings.buildCycle i.around i.telemetry.toTelemetry with
  | .error e => (.error e, ⟨[], []⟩)
  | .ok cycle => (cycle.jobLogged db).eval ⟨[], []⟩

/-- What follows the session: the commit is done, or the failure is reported before it is
    logged. What is returned at the end is logged after the flush. -/
def afterSession (i : Invocation) : Except Error (CycleResult × Database) → List Effect
  | .ok (result, db') =>
    .commit db' :: match i.telemetry.flush with
      | .ok _ => [.line (.exit result.cycleId result.decision.outcome)]
      | .error _ => []
  | .error e =>
    match i.telemetry.recordError e.typeName with
    | .ok _ => [.line (failureEvent e)]
    | .error _ => []

/-- The effects of `main`. -/
def effects (i : Invocation) (db : Database) : List Effect :=
  match i.settings.requireDatabaseUrl with
  | .error _ => []
  | .ok _ =>
    let (outcome, trail) := i.session db
    trail.events.map .line ++ i.afterSession outcome

end Invocation

/-- The committed rows and the console log. -/
structure Site where
  tables : Database
  console : List LogEvent

namespace Site

/-- An effect becomes visible, unless the logger drops it. -/
def observe (threshold : LogLevel) (s : Site) : Effect → Site
  | .line event => { s with console := s.console ++ emitted threshold [event] }
  | .commit db => { s with tables := db }

/-- A process runs until it ends, or until it is killed after some of its effects. -/
def invoke (s : Site) (call : Invocation × Option ℕ) : Site :=
  let effects := call.1.effects s.tables
  let seen := match call.2 with
    | none => effects
    | some n => effects.take n
  seen.foldl (observe call.1.logLevel) s

def Invokes (s : Site) (call : Invocation × Option ℕ) (s' : Site) : Prop := s' = s.invoke call

end Site

end TradingBot
