import TradingBot.Cycle

/-!
# Telemetry of a process

What the entry point asks of telemetry beyond what a cycle does, and which implementation
it gets. The exporter of the third-party SDK is a parameter.
-/

namespace TradingBot

/-- Telemetry as the entry point takes it: it is told of failures and flushed at the end. -/
structure TelemetryExporter extends Telemetry where
  recordError : String → Except Error Unit
  flush : Except Error Unit

/-- `NullTelemetry`. -/
def nullExporter : TelemetryExporter where
  toTelemetry := nullTelemetry
  recordError _ := .ok ()
  flush := .ok ()

/-- Return an exporter, or a no-op when there is nowhere to export to or it cannot be
    built. -/
def buildTelemetry (azureMonitor : String → Except Error TelemetryExporter)
    (connectionString : Option String) : TelemetryExporter :=
  match connectionString with
  | none => nullExporter
  | some connectionString =>
    if connectionString = "" then nullExporter
    else
      match azureMonitor connectionString with
      | .ok exporter => exporter
      | .error _ => nullExporter

/-- An exporter that cannot be built is a no-op. -/
theorem buildTelemetry_of_error {azureMonitor : String → Except Error TelemetryExporter}
    (h : ∀ connectionString, ∃ e, azureMonitor connectionString = .error e)
    (connectionString : Option String) :
    buildTelemetry azureMonitor connectionString = nullExporter := by
  unfold buildTelemetry
  split
  next => rfl
  next connectionString =>
    split
    next => rfl
    next =>
      obtain ⟨e, he⟩ := h connectionString
      rw [he]

end TradingBot
