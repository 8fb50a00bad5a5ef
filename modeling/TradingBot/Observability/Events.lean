import TradingBot.Domain.Portfolio

/-!
# Log events

The lines a process writes, with the fields of each, and the queries that alerts run over
the console log. A decimal is written as its `str`, which reads back as the same number, so
it stays a number here. Durations, the name of the venue and what the pipeline adds to every
line are left out.
-/

namespace TradingBot

/-- `log_level` of the settings. -/
inductive LogLevel where
  | debug
  | info
  | warning
  | error
  deriving DecidableEq, Repr

/-- `getLevelNamesMapping`. -/
def LogLevel.value : LogLevel → ℕ
  | debug => 10
  | info => 20
  | warning => 30
  | error => 40

inductive LogEvent where
  | decision (cycleId symbol : String) (markPrice : ℚ) (signalAction : SignalAction)
      (signalStrength : ℚ) (outcome : DecisionOutcome) (reason : String)
      (killSwitchEngaged : Bool) (failedChecks : List RiskCheckName)
  | duplicateSuppressed (cycleId clientOrderId : String)
  | executed (cycleId clientOrderId : String) (status : OrderStatus)
      (filledQuantity feesQuote : ℚ)
  | completed (cycleId : String) (equityQuote cashQuote positionQuantity drawdownRatio : ℚ)
  | exit (cycleId : String) (outcome : DecisionOutcome)
  | failed (errorType : String) (error : Error)
  | crashed (errorType : String) (error : Error)
  deriving DecidableEq, Repr

namespace LogEvent

/-- What follows `cycle.` in the message. -/
def message : LogEvent → String
  | decision .. => "cycle.decision"
  | duplicateSuppressed .. => "cycle.duplicate_suppressed"
  | executed .. => "cycle.executed"
  | completed .. => "cycle.completed"
  | exit .. => "cycle.exit"
  | failed .. => "cycle.failed"
  | crashed .. => "cycle.crashed"

/-- The method of the logger an event is written with. -/
def level : LogEvent → LogLevel
  | decision .. | executed .. | completed .. | exit .. => .info
  | duplicateSuppressed .. => .warning
  | failed .. | crashed .. => .error

end LogEvent

/-- The filtering logger drops what is below the level of the settings. -/
def emitted (threshold : LogLevel) (events : List LogEvent) : List LogEvent :=
  events.filter fun event => threshold.value ≤ event.level.value

/-! ## Queries -/

/-- `no-cycle.kql`: the completed cycles of a window. -/
def completedCycles (console : List LogEvent) : ℕ :=
  console.countP (·.message = "cycle.completed")

/-- The lines `cycle-failed.kql` looks for. -/
def LogEvent.isFailure (event : LogEvent) : Bool :=
  event.message ∈ ["cycle.failed", "cycle.crashed"]

/-- The alert on failed cycles fires on a group that is not empty. -/
def failureAlert (console : List LogEvent) : Bool := console.any LogEvent.isFailure

/-- The drawdown of a completed cycle. -/
def LogEvent.drawdown : LogEvent → Option ℚ
  | completed _ _ _ _ drawdownRatio => some drawdownRatio
  | _ => none

section Drawdown

/-! The query reads the decimal of the line with `todouble`, which is not part of the
repository. -/

variable (todouble : ℚ → ℚ)

/-- `drawdown.kql`: the largest drawdown of a window as it is read, if a cycle completed. -/
def maxDrawdown (console : List LogEvent) : Option ℚ :=
  (console.filterMap fun event => event.drawdown.map todouble).max?

/-- The alert on a drawdown fires above its threshold, and not on a window without one. -/
def drawdownAlert (threshold : ℚ) (console : List LogEvent) : Bool :=
  (maxDrawdown todouble console).any (threshold < ·)

/-- Some completed cycle of the window reads above the threshold. -/
theorem drawdownAlert_iff {threshold : ℚ} {console : List LogEvent} :
    drawdownAlert todouble threshold console = true ↔
      ∃ event ∈ console, ∃ drawdown, event.drawdown = some drawdown ∧
        threshold < todouble drawdown := by
  -- the largest is above the threshold if any of them is
  have hmax : ∀ drawdowns : List ℚ,
      drawdowns.max?.any (threshold < ·) = true ↔ ∃ d ∈ drawdowns, threshold < d := by
    intro drawdowns
    cases h : drawdowns.max? with
    | none => simp [List.max?_eq_none_iff.mp h]
    | some d =>
      obtain ⟨hmem, hle⟩ := List.max?_eq_some_iff.mp h
      simp only [Option.any_some, decide_eq_true_eq]
      exact ⟨fun hd => ⟨d, hmem, hd⟩, fun ⟨d', hd', hlt⟩ => hlt.trans_le (hle d' hd')⟩
  rw [drawdownAlert, maxDrawdown, hmax]
  simp only [List.mem_filterMap, Option.map_eq_some_iff]
  constructor
  · rintro ⟨_, ⟨event, hmem, drawdown, hevent, rfl⟩, hlt⟩
    exact ⟨event, hmem, drawdown, hevent, hlt⟩
  · rintro ⟨event, hmem, drawdown, hevent, hlt⟩
    exact ⟨_, ⟨event, hmem, drawdown, hevent, rfl⟩, hlt⟩

end Drawdown

end TradingBot
