import TradingBot.ForMathlib.Rounding
import TradingBot.ForMathlib.SignificantDigits
import TradingBot.ForMathlib.RelativeError
import TradingBot.ForMathlib.Digits
import TradingBot.ForMathlib.Except
import TradingBot.ForMathlib.Runs
import TradingBot.ForMathlib.AverageCost
import TradingBot.ForMathlib.RoundedAverage
import TradingBot.ForMathlib.Crossing
import TradingBot.ForMathlib.Infix
import TradingBot.ForMathlib.Nested
import TradingBot.ForMathlib.Separator
import TradingBot.Python.Text
import TradingBot.Python.Float
import TradingBot.Python.Repr
import TradingBot.Python.Decimal
import TradingBot.Domain.Market
import TradingBot.Execution.Ledger
import TradingBot.Policy.Engine
import TradingBot.Policy.DecimalContext
import TradingBot.Policy.DecimalEngine
import TradingBot.Strategy.DecimalCrossover
import TradingBot.Execution.DecimalLedger
import TradingBot.Exchange.Timestamps
import TradingBot.Exchange.Timezones
import TradingBot.Exchange.Simulated
import TradingBot.Exchange.CcxtSandbox
import TradingBot.Exchange.CcxtFloats
import TradingBot.Exchange.SandboxGuard
import TradingBot.Persistence.Repository
import TradingBot.Observability.Logging
import TradingBot.Cycle
import TradingBot.Main
import TradingBot.Logged
import TradingBot.Overlap
import TradingBot.Retry
import TradingBot.Fleet
import TradingBot.Spec.OverlapSteps
import TradingBot.Spec.CycleSteps
import TradingBot.Spec.Scenario
import TradingBot.Spec.Ledger
import TradingBot.Spec.LedgerConservation
import TradingBot.Spec.PolicyLimits
import TradingBot.Spec.Overdraft
import TradingBot.Spec.VenueFills
import TradingBot.Spec.FeeCurrency
import TradingBot.Spec.CrashRetry
import TradingBot.Spec.DayOpening
import TradingBot.Spec.DecisionReplay
import TradingBot.Spec.Sizing
import TradingBot.Spec.DecimalSizing
import TradingBot.Spec.DecimalVerdict
import TradingBot.Spec.DecimalRounding
import TradingBot.Spec.DecimalSignal
import TradingBot.Spec.DecimalLedger
import TradingBot.Spec.LostUpdates
import TradingBot.Spec.MarketHistory
import TradingBot.Spec.OneBar
import TradingBot.Spec.Replay
import TradingBot.Spec.CycleGate
import TradingBot.Spec.SimulatedCosts
import TradingBot.Spec.SimulatedPrices
import TradingBot.Spec.AverageCost
import TradingBot.Spec.CrossoverSignal
import TradingBot.Spec.SignalSequence
import TradingBot.Spec.SymbolIsolation
import TradingBot.Spec.TelemetryFailures
import TradingBot.Spec.TimeframeGrammar
import TradingBot.Spec.TimezoneFloors
import TradingBot.Spec.OrderIds
import TradingBot.Spec.MarketDataErrors
import TradingBot.Spec.SnapshotShape
import TradingBot.Spec.TestnetGuard
import TradingBot.Spec.Redaction
import TradingBot.Spec.SimulatorAcceptance
import TradingBot.Spec.VenueReconciliation
import TradingBot.Spec.FleetIsolation
import TradingBot.Spec.AuditTrail
import TradingBot.Spec.EquityAttribution
import TradingBot.Spec.LossLimit
import TradingBot.Spec.StoredAverage
import TradingBot.Spec.SerialSchedules
import TradingBot.Spec.FloatGateway
import TradingBot.Spec.Progress
import TradingBot.Spec.Ruin
import TradingBot.Spec.DrawdownAlert
