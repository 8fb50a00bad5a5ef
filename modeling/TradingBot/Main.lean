import TradingBot.Bootstrap
import TradingBot.ForMathlib.Except

/-!
# The entry point

Run exactly one trading cycle and exit. A process ends with an exit code, or with an
exception that nothing caught. Whatever happens, telemetry is flushed last.
-/

namespace TradingBot

def exitOk : ℕ := 0

def exitFailed : ℕ := 1

/-- How a process ends: its exit code or the exception it dies of, the committed rows, and
    the intents it submitted. -/
structure Ending where
  code : Except Error ℕ
  tables : Database
  submitted : List OrderIntent

/-- Build the cycle, run it and commit its session. -/
def runSession (settings : Settings) (around : Surroundings) (telemetry : Telemetry)
    (db : Database) (A : DecimalContext := .exact) :
    Except Error (CycleResult × Database) × List OrderIntent :=
  match settings.buildCycle around telemetry A with
  | .error e => (.error e, [])
  | .ok cycle => (cycle.job db A).eval []

/-- The exit code of a session: a failure is reported to telemetry first. -/
def exitCode (telemetry : TelemetryExporter) :
    Except Error (CycleResult × Database) → Except Error ℕ
  | .ok _ => .ok exitOk
  | .error e => do
    telemetry.recordError e.typeName
    return exitFailed

/-- The rows after a session: those it committed, or those that were there. -/
def tablesAfter (db : Database) : Except Error (CycleResult × Database) → Database
  | .ok (_, db') => db'
  | .error _ => db

/-- `main`, with the telemetry that was built for it. -/
def main (settings : Settings) (around : Surroundings) (telemetry : TelemetryExporter)
    (db : Database) (A : DecimalContext := .exact) : Ending :=
  match settings.requireDatabaseUrl with
  | .error e => ⟨.error e, db, []⟩
  | .ok _ =>
    let (outcome, submitted) := runSession settings around telemetry.toTelemetry db A
    -- an exception raised while flushing replaces whatever was to be returned
    let code := do
      telemetry.flush
      exitCode telemetry outcome
    ⟨code, tablesAfter db outcome, submitted⟩

end TradingBot
