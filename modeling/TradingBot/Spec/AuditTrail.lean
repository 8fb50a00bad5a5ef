import TradingBot.Logged
import TradingBot.Spec.CycleSteps
import TradingBot.Spec.TelemetryFailures

/-!
# What the console log says of the tables

Alerts and dashboards read the console log, not the tables. `cycle.completed` is written
before the commit and `cycle.exit` after it, so the exits are among the committed cycles and
these among the completed ones, whatever raises and wherever a process is killed. When
nothing is killed, telemetry never raises and the columns take what is left to write at the
commit, the three are the same and every other process has left a failure.

## Key results

- `TradingCycle.jobLogged_eval`: the logged job is the job, with its events
- `Site.Invokes.seen`: which lines of its cycle a process leaves
- `Site.Accounts`: the invariant of all runs
- `Site.console_accounts_for_tables`: the result over every sequence of processes
-/

namespace TradingBot

namespace TradingCycle

/-! ## The events of a cycle -/

/-- The event of an order that was answered. -/
def executedEvent (p : Prepared) (intent : OrderIntent) (x : Executed) : LogEvent :=
  .executed p.cycleId intent.clientOrderId x.execution.status
    (x.execution.filledQuantityIn .exact) x.execution.feesQuote

/-- The events of acting on a decision. -/
def executeEvents (c : TradingCycle) (db : Database) (p : Prepared) : List LogEvent :=
  match p.decision.intent with
  | none => []
  | some intent =>
    if db.alreadyExecuted intent.clientOrderId then
      [.duplicateSuppressed p.cycleId intent.clientOrderId]
    else
      match c.afterSubmit p intent with
      | .ok x => [executedEvent p intent x]
      | .error _ => []

/-- The equity of a cycle, once telemetry has taken it. -/
def takenEquity (c : TradingCycle) (p : Prepared) (s : Settlement) :
    Except Error EquitySnapshot := do
  let equity ← EquitySnapshot.validate c.clock c.symbol p.markPrice s.cash s.position.quantity
    (equityIn .exact s.cash s.position p.markPrice) p.account.dayOpeningEquity
  c.telemetry.recordDecision p.decision.outcome c.symbol
  c.telemetry.recordEquity equity.equityQuote (equity.drawdownRatioIn .exact) c.symbol
  return equity

def completedEvent (p : Prepared) (equity : EquitySnapshot) : LogEvent :=
  .completed p.cycleId equity.equityQuote equity.cashQuote equity.positionQuantity
    (equity.drawdownRatioIn .exact)

/-- The events of recording the equity. -/
def concludeEvents (c : TradingCycle) (p : Prepared) (s : Settlement) : List LogEvent :=
  match c.takenEquity p s with
  | .ok equity => [completedEvent p equity]
  | .error _ => []

/-- The events of a run. -/
def events (c : TradingCycle) (db : Database) : List LogEvent :=
  match c.prepare db with
  | .error _ => []
  | .ok p => c.decisionEvent p :: c.executeEvents db p ++
      match ((c.execute db p).eval []).1 with
      | .error _ => []
      | .ok s => c.concludeEvents p s

variable {c : TradingCycle} {db db' : Database} {p : Prepared} {s : Settlement}
  {intent : OrderIntent} {sent : List OrderIntent} {r : CycleResult}

/-- A logged submission returns what the plain one returns. It leaves the line of the execution,
    and the intent is sent whatever follows. -/
theorem sendLogged_eval (c : TradingCycle) (db : Database) (p : Prepared) (intent : OrderIntent)
    (trail : Trail) :
    (c.sendLogged db p intent).eval trail =
      match c.afterSubmit p intent with
      | .ok x => (.ok (c.settle db x),
          ⟨trail.submitted ++ [intent], trail.events ++ [executedEvent p intent x]⟩)
      | .error e => (.error e, ⟨trail.submitted ++ [intent], trail.events⟩) := by
  unfold sendLogged afterSubmit log
  simp only [ExceptT.eval_bind, ExceptT.eval_modify, ExceptT.eval_liftExcept]
  cases hanswer : c.gateway.submit intent with
  | error e => rfl
  | ok execution =>
    simp only [bind, Except.bind]
    cases c.telemetry.recordOrderLatency c.symbol intent.side with
    | error e => rfl
    | ok _ =>
      cases hfold : applyExecutionIn .exact p.account.cashQuote p.account.position execution with
      | error e => simp only
      | ok update =>
        -- the fees of the update are those of the fills
        have hfees : update.feesQuote = execution.feesQuote := (applyExecution_ok hfold).2.2.2.1
        simp only
        cases autoflush ((recordExecution p.cycleId p.decision execution).1.storable &&
            (recordExecution p.cycleId p.decision execution).2.all FillRecord.storable) with
        | error e => rfl
        | ok _ =>
          simp only [pure, Except.pure, executedEvent, ← hfees]
          rfl

/-- A logged `execute` is the plain one beside the lines of `executeEvents`. -/
theorem executeLogged_eval (c : TradingCycle) (db : Database) (p : Prepared) (trail : Trail) :
    (c.executeLogged db p).eval trail = (((c.execute db p).eval []).1,
      ⟨trail.submitted ++ ((c.execute db p).eval []).2, trail.events ++ c.executeEvents db p⟩) := by
  unfold executeLogged execute executeEvents
  cases houtcome : p.decision.outcome with
  | hold =>
    have hnone := PolicyDecision.outcome_eq_hold_iff.mp houtcome
    simp [hnone]
  | submit =>
    obtain ⟨intent, hintent⟩ := PolicyDecision.exists_intent houtcome
    simp only [hintent]
    -- a suppressed order leaves its line; a new one leaves the line of its execution
    cases hknown : db.alreadyExecuted intent.clientOrderId with
    | true =>
      simp only [if_true, log, ExceptT.eval_bind, ExceptT.eval_modify, ExceptT.eval_pure,
        List.append_nil]
    | false =>
      simp only [Bool.false_eq_true, if_false, sendLogged_eval, ExceptT.eval_bind, send_eval]
      cases c.afterSubmit p intent <;> simp

/-- A cycle concludes once telemetry has taken its equity and its duration. -/
theorem conclude_eq (c : TradingCycle) (p : Prepared) (s : Settlement) :
    c.conclude p s = (do
      let equity ← c.takenEquity p s
      c.telemetry.recordCycleDuration c.symbol
      return ({ cycleId := p.cycleId, signal := p.signal, decision := p.decision
                execution := s.execution, equity, duplicateSuppressed := s.duplicateSuppressed },
        { signal := recordSignal p.cycleId p.signal, order := s.order, fills := s.fills
          position := s.write, equity := recordEquitySnapshot p.cycleId equity })) := by
  simp only [conclude, takenEquity, bind_assoc, pure_bind]

/-- A logged end of the cycle is the plain one beside the lines of `concludeEvents`. -/
theorem concludeLogged_eval (c : TradingCycle) (p : Prepared) (s : Settlement) (trail : Trail) :
    (c.concludeLogged p s).eval trail =
      (c.conclude p s, ⟨trail.submitted, trail.events ++ c.concludeEvents p s⟩) := by
  unfold concludeLogged conclude concludeEvents takenEquity log
  simp only [ExceptT.eval_bind, ExceptT.eval_modify, ExceptT.eval_liftExcept]
  -- the line is only written when everything before it has gone through
  cases EquitySnapshot.validate c.clock c.symbol p.markPrice s.cash s.position.quantity
      (equityIn .exact s.cash s.position p.markPrice) p.account.dayOpeningEquity with
  | error e => simp [bind, Except.bind]
  | ok equity =>
    simp only [bind, Except.bind]
    cases c.telemetry.recordDecision p.decision.outcome c.symbol with
    | error e => simp
    | ok _ =>
      simp only
      cases c.telemetry.recordEquity equity.equityQuote (equity.drawdownRatioIn .exact)
          c.symbol with
      | error e => simp
      | ok _ =>
        simp only
        cases c.telemetry.recordCycleDuration c.symbol <;> rfl

/-- The logged job is the job: its lines and its intents are all it adds. -/
theorem jobLogged_eval (c : TradingCycle) (db : Database) :
    (c.jobLogged db).eval ⟨[], []⟩ = ((c.outcome db).1, ⟨(c.outcome db).2, c.events db⟩) := by
  unfold jobLogged outcome job run events log
  simp only [ExceptT.eval_bind, ExceptT.eval_modify, ExceptT.eval_liftExcept]
  cases c.prepare db with
  | error e => rfl
  | ok p =>
    simp only [executeLogged_eval]
    rcases (c.execute db p).eval [] with ⟨e | s, sent⟩
    · simp
    · simp only [concludeLogged_eval]
      cases c.conclude p s with
      | error e => simp
      | ok result =>
        simp only
        cases result.2.commitSession db <;> simp

end TradingCycle

/-! ## What the log reports -/

/-- A committed cycle, as far as the log and the rows both tell. -/
structure CycleReport where
  cycleId : String
  equityQuote : Amount
  cashQuote : Amount
  positionQuantity : Amount
  deriving DecidableEq, Repr

def EquitySnapshotRecord.report (row : EquitySnapshotRecord) : CycleReport :=
  ⟨row.cycleId, row.equityQuote, row.cashQuote, row.positionQuantity⟩

/-- What the log reports as completed. -/
def completions (console : List LogEvent) : List CycleReport :=
  console.filterMap fun
    | .completed cycleId equityQuote cashQuote positionQuantity _ =>
      some ⟨cycleId, .ofRat 18 equityQuote, .ofRat 18 cashQuote, .ofRat 18 positionQuantity⟩
    | _ => none

/-- The orders the log reports as executed, with their status. -/
def executions (console : List LogEvent) : List (String × OrderStatus) :=
  console.filterMap fun
    | .executed _ clientOrderId status _ _ => some (clientOrderId, status)
    | _ => none

/-- The cycles the log reports as ended well. -/
def exits (console : List LogEvent) : List String :=
  console.filterMap fun
    | .exit cycleId _ => some cycleId
    | _ => none

def OrderRecord.report (row : OrderRecord) : String × OrderStatus :=
  (row.clientOrderId, row.status)

section Projections

variable (console lines : List LogEvent)

/-- The completed cycles of a longer console are those of its two parts. -/
@[simp] theorem completions_append :
    completions (console ++ lines) = completions console ++ completions lines :=
  List.filterMap_append

/-- So are the executed orders. -/
@[simp] theorem executions_append :
    executions (console ++ lines) = executions console ++ executions lines :=
  List.filterMap_append

/-- So are the exits. -/
@[simp] theorem exits_append : exits (console ++ lines) = exits console ++ exits lines :=
  List.filterMap_append

/-- The query of the silence alert counts what is reported as completed. -/
theorem completedCycles_eq : completedCycles console = (completions console).length := by
  rw [completedCycles, completions, List.length_filterMap_eq_countP]
  congr 1
  funext event
  cases event <;> simp [LogEvent.message]

/-- Down to informational lines nothing is dropped. -/
theorem emitted_of_le {threshold : LogLevel} (h : threshold.value ≤ LogLevel.info.value) :
    emitted threshold lines = lines := by
  refine List.filter_eq_self.mpr fun event _ => decide_eq_true (h.trans ?_)
  cases event <;> simp [LogEvent.level, LogLevel.value]

end Projections

namespace TradingCycle

variable {c : TradingCycle} {db db' : Database} {p : Prepared} {s : Settlement}
  {intent : OrderIntent} {sent : List OrderIntent} {r : CycleResult}

/-- The event of a cycle whose equity is recorded. -/
def IsRunEvent : LogEvent → Prop
  | .decision .. | .duplicateSuppressed .. | .executed .. | .completed .. => True
  | .exit .. | .failed .. | .crashed .. => False

/-- Where a line of a cycle comes from. -/
theorem mem_events {event : LogEvent} (h : event ∈ c.events db) : ∃ p, c.Prepares db p ∧
    (event = c.decisionEvent p ∨ event ∈ c.executeEvents db p ∨
      ∃ s sent, c.Settles db p s sent ∧ event ∈ c.concludeEvents p s) := by
  unfold events at h
  split at h
  next => exact absurd h List.not_mem_nil
  next p hp =>
    refine ⟨p, prepare_ok.mp hp, ?_⟩
    rw [List.cons_append, List.mem_cons, List.mem_append] at h
    rcases h with rfl | h | h
    · exact .inl rfl
    · exact .inr (.inl h)
    · split at h
      next => exact absurd h List.not_mem_nil
      next s hs => exact .inr (.inr ⟨s, _, execute_ok.mp (Prod.ext hs rfl), h⟩)

/-- `execute` only writes about the intent of the decision: that it was suppressed, or how it was
    executed. -/
theorem mem_executeEvents {event : LogEvent} (h : event ∈ c.executeEvents db p) :
    ∃ intent, p.decision.intent = some intent ∧
      (event = .duplicateSuppressed p.cycleId intent.clientOrderId ∨
        ∃ x, event = executedEvent p intent x) := by
  unfold executeEvents at h
  split at h
  next => exact absurd h List.not_mem_nil
  next intent hintent =>
    refine ⟨intent, hintent, ?_⟩
    split at h
    next => exact .inl (List.mem_singleton.mp h)
    next =>
      split at h
      next x _ => exact .inr ⟨x, List.mem_singleton.mp h⟩
      next => exact absurd h List.not_mem_nil

/-- The end of a cycle writes one line, with the equity that was taken. -/
theorem mem_concludeEvents {event : LogEvent} (h : event ∈ c.concludeEvents p s) :
    ∃ equity, c.takenEquity p s = .ok equity ∧ event = completedEvent p equity := by
  unfold concludeEvents at h
  split at h
  next equity htaken => exact ⟨equity, htaken, List.mem_singleton.mp h⟩
  next => exact absurd h List.not_mem_nil

/-- A run logs neither its exit nor its failure. -/
theorem isRunEvent_of_mem_events {event : LogEvent} (h : event ∈ c.events db) :
    IsRunEvent event := by
  obtain ⟨p, -, rfl | h | ⟨s, sent, -, h⟩⟩ := mem_events h
  · trivial
  · obtain ⟨intent, -, rfl | ⟨x, rfl⟩⟩ := mem_executeEvents h <;> trivial
  · obtain ⟨equity, -, rfl⟩ := mem_concludeEvents h
    trivial

/-- The cycle itself never writes the line of an exit: only the job does. -/
theorem exits_events (c : TradingCycle) (db : Database) : exits (c.events db) = [] := by
  refine List.filterMap_eq_nil_iff.mpr fun event h => ?_
  have hrun := isRunEvent_of_mem_events h
  cases event <;> first | rfl | exact hrun.elim

/-- A cycle that concludes has logged the equity it recorded. -/
theorem concludeEvents_ok {tx : Transaction} (h : c.conclude p s = .ok (r, tx)) :
    ∃ equity, c.concludeEvents p s = [completedEvent p equity] ∧
      tx.equity = recordEquitySnapshot p.cycleId equity ∧ r.cycleId = p.cycleId := by
  rw [conclude_eq] at h
  obtain ⟨equity, hequity, h⟩ := Except.bind_eq_ok.mp h
  obtain ⟨_, -, h⟩ := Except.bind_eq_ok.mp h
  cases h
  exact ⟨equity, by rw [concludeEvents, hequity], rfl, rfl⟩

/-- Acting on a decision reports the order row it leaves, if it leaves one. -/
theorem executions_executeEvents (hs : c.Settles db p s sent) :
    executions (c.executeEvents db p) = s.order.toList.map OrderRecord.report ∧
      completions (c.executeEvents db p) = [] := by
  unfold executeEvents
  cases hs with
  | held hnone =>
    rw [hnone]
    exact ⟨rfl, rfl⟩
  | suppressed hintent hknown =>
    simp only [hintent, hknown, if_true]
    exact ⟨rfl, rfl⟩
  | @sent _ intent x hintent hnew hsends =>
    simp only [hintent, hnew, Bool.false_eq_true, if_false, afterSubmit_ok.mpr hsends]
    -- the row that is kept is the one the line reports
    have hrow : x.order = (recordExecution p.cycleId p.decision x.execution).1 :=
      (congrArg Prod.fst hsends.recorded).symm
    have hreport : x.order.report = (intent.clientOrderId, x.execution.status) := by
      rw [OrderRecord.report, hsends.order_eq.1, hrow]
      rfl
    exact ⟨congrArg (fun row => [row]) hreport.symm, rfl⟩

/-- A cycle that commits has reported the rows it commits. -/
theorem events_of_outcome_ok (h : (c.outcome db).1 = .ok (r, db')) :
    ∃ row order, db'.equitySnapshots = db.equitySnapshots ++ [row] ∧
      db'.orders = db.orders ++ order ∧ row.cycleId = r.cycleId ∧
      completions (c.events db) = [row.report] ∧
      executions (c.events db) = order.map OrderRecord.report := by
  obtain ⟨tx, hrun, hcommit⟩ := outcome_eq_ok.mp (Prod.ext h rfl)
  obtain ⟨p, s, hp, hs, hconclude⟩ := run_ok.mp hrun
  obtain ⟨-, -, rfl⟩ := Transaction.commitSession_ok_iff.mp hcommit
  obtain ⟨equity, hevents, hrow, hid⟩ := concludeEvents_ok hconclude
  obtain ⟨rfl, -⟩ := conclude_ok hconclude
  obtain ⟨hexecuted, hcompleted⟩ := executions_executeEvents hs
  -- the trail of the cycle: its decision, its order and its end
  have hreports : c.events db =
      [c.decisionEvent p] ++ c.executeEvents db p ++ [completedEvent p equity] := by
    simp only [events, prepare_ok.mpr hp, execute_ok.mpr hs, hevents]
    rfl
  refine ⟨_, s.order.toList, rfl, rfl, hid.symm ▸ rfl, ?_, ?_⟩
  · rw [hreports, hrow, completions_append, completions_append, hcompleted]
    rfl
  · rw [hreports, executions_append, executions_append, hexecuted]
    exact List.append_nil _

/-- A cycle that fails although telemetry and the columns take everything has reported nothing
    of the kind. -/
theorem events_of_outcome_error {e : Error} (h : (c.outcome db).1 = .error e)
    (htakes : ∀ p s sent, c.Prepares db p → c.Settles db p s sent →
      c.telemetry.Takes c.symbol p.decision.outcome
        (equityIn .exact s.cash s.position p.markPrice) p.account.dayOpeningEquity ∧
      (c.pending p s).storable = true) :
    completions (c.events db) = [] ∧ executions (c.events db) = [] := by
  unfold events
  cases hprepare : c.prepare db with
  | error _ => exact ⟨rfl, rfl⟩
  | ok p =>
    have hp := prepare_ok.mp hprepare
    -- a cycle that settles commits
    have hunsettled : ∀ s sent, ¬c.Settles db p s sent := by
      intro s sent hs
      obtain ⟨r, db', hok⟩ := (exists_outcome_iff hp hs).mpr (htakes p s sent hp hs)
      cases h.symm.trans hok
    obtain ⟨e', hexecute⟩ : ∃ e', ((c.execute db p).eval []).1 = .error e' := by
      rcases hexecute : (c.execute db p).eval [] with ⟨e' | s, sent⟩
      · exact ⟨e', rfl⟩
      · exact absurd (execute_ok.mp hexecute) (hunsettled s sent)
    have hevents : c.executeEvents db p = [] := by
      unfold executeEvents
      cases hintent : p.decision.intent with
      | none => exact absurd (.held hintent) (hunsettled _ _)
      | some intent =>
        cases hknown : db.alreadyExecuted intent.clientOrderId with
        | true => exact absurd (.suppressed hintent hknown) (hunsettled _ _)
        | false =>
          cases hafter : c.afterSubmit p intent with
          | error _ => simp [hknown, hafter]
          | ok x => exact absurd (.sent hintent hknown (afterSubmit_ok.mp hafter)) (hunsettled _ _)
    simp only [hexecute, hevents, List.append_nil]
    exact ⟨rfl, rfl⟩

end TradingCycle

/-! ## Processes -/

/-- Every call to telemetry returns. -/
structure TelemetryExporter.Returns (t : TelemetryExporter) : Prop where
  equity : ∀ equity drawdown symbol, t.recordEquity equity drawdown symbol = .ok ()
  decision : ∀ outcome symbol, t.recordDecision outcome symbol = .ok ()
  latency : ∀ symbol side, t.recordOrderLatency symbol side = .ok ()
  duration : ∀ symbol, t.recordCycleDuration symbol = .ok ()
  error : ∀ errorType, t.recordError errorType = .ok ()
  flush : t.flush = .ok ()

/-- Such a telemetry takes whatever a cycle reports. -/
theorem TelemetryExporter.Returns.takes {t : TelemetryExporter} (h : t.Returns) (symbol : String)
    (outcome : DecisionOutcome) (equity opening : ℚ) : t.Takes symbol outcome equity opening :=
  ⟨h.decision _ _, fun _ _ _ => h.equity _ _ _, h.duration _⟩

/-- The logged session is the session of the process. -/
theorem Invocation.session_fst (i : Invocation) (db : Database) :
    (i.session db).1 = (runSession i.settings i.around i.telemetry.toTelemetry db).1 := by
  unfold session runSession
  cases i.settings.buildCycle i.around i.telemetry.toTelemetry with
  | error e => rfl
  | ok c => exact congrArg Prod.fst (c.jobLogged_eval db)

namespace Site

variable {s s' : Site} {threshold : LogLevel}

/-- Observing lines changes no table, and adds the emitted ones to the console. -/
theorem foldl_observe_lines (events : List LogEvent) (s : Site) :
    (events.map Effect.line).foldl (observe threshold) s =
      ⟨s.tables, s.console ++ emitted threshold events⟩ := by
  induction events generalizing s with
  | nil => simp [emitted]
  | cons event events ih =>
    rw [List.map_cons, List.foldl_cons, ih]
    simp [observe, emitted, List.filter_cons]
    split <;> simp

/-- A process that is not killed leaves the rows that `main` does. -/
theorem invoke_tables (s : Site) (i : Invocation) : (s.invoke (i, none)).tables =
    (main i.settings i.around i.telemetry s.tables).tables := by
  -- the lines of a failure change no table, whatever the reporter does
  have hreported : ∀ (events : List LogEvent) (e : Error) (t : Site),
      ((events.map Effect.line ++ i.afterSession (.error e)).foldl (observe i.logLevel) t).tables =
        t.tables := by
    intro events e t
    simp only [List.foldl_append, foldl_observe_lines, Invocation.afterSession]
    cases i.telemetry.recordError e.typeName <;> rfl
  unfold invoke Invocation.effects main
  cases i.settings.requireDatabaseUrl with
  | error e => rfl
  | ok url =>
    simp only [← i.session_fst]
    cases (i.session s.tables).1 with
    | error e => exact hreported _ e s
    | ok result =>
      simp only [List.foldl_append, foldl_observe_lines, Invocation.afterSession]
      cases i.telemetry.flush <;> rfl

/-- What can be seen of a process: no cycle comes about, its cycle is cut off or fails, or its
    cycle commits. The lines of the cycle come first, and what follows reports how it ended. -/
inductive Seen (i : Invocation) (s : Site) : Site → Prop
  | idle {last : List LogEvent} : (∀ event ∈ last, event.isFailure = true) →
      Seen i s ⟨s.tables, s.console ++ emitted i.logLevel last⟩
  | stopped {c : TradingCycle} {lines last : List LogEvent} :
      i.settings.buildCycle i.around i.telemetry.toTelemetry = .ok c →
      lines <+: c.events s.tables → (∀ event ∈ last, event.isFailure = true) →
      Seen i s ⟨s.tables, s.console ++ emitted i.logLevel (lines ++ last)⟩
  | committed {c : TradingCycle} {r : CycleResult} {db : Database} {last : List LogEvent} :
      i.settings.buildCycle i.around i.telemetry.toTelemetry = .ok c →
      (c.outcome s.tables).1 = .ok (r, db) →
      (last = [] ∨ last = [.exit r.cycleId r.decision.outcome]) →
      Seen i s ⟨db, s.console ++ emitted i.logLevel (c.events s.tables ++ last)⟩

/-- The line of a failed cycle is a failure whatever the error is. -/
theorem isFailure_failureEvent (e : Error) : (failureEvent e).isFailure = true := by
  unfold failureEvent
  split <;> simp [LogEvent.isFailure, LogEvent.message]

/-- After a failure there is at most the line that reports it. -/
private theorem afterSession_error (i : Invocation) (e : Error) :
    ∃ last : List LogEvent, i.afterSession (.error e) = last.map .line ∧
      ∀ event ∈ last, event.isFailure = true := by
  simp only [Invocation.afterSession]
  cases i.telemetry.recordError e.typeName with
  | error _ => exact ⟨[], rfl, by simp⟩
  | ok _ => exact ⟨[failureEvent e], rfl, by simpa using isFailure_failureEvent e⟩

/-- After the commit there is at most the line of the exit. -/
private theorem afterSession_ok (i : Invocation) (r : CycleResult) (db : Database) :
    ∃ last : List LogEvent, i.afterSession (.ok (r, db)) = .commit db :: last.map .line ∧
      (last = [] ∨ last = [.exit r.cycleId r.decision.outcome]) := by
  simp only [Invocation.afterSession]
  cases i.telemetry.flush with
  | error _ => exact ⟨[], rfl, .inl rfl⟩
  | ok _ => exact ⟨[.exit r.cycleId r.decision.outcome], rfl, .inr rfl⟩

/-- A process that is seen up to some point. -/
private theorem seen_take (i : Invocation) (s : Site) (n : ℕ) :
    Seen i s (((i.effects s.tables).take n).foldl (observe i.logLevel) s) := by
  unfold Invocation.effects
  cases i.settings.requireDatabaseUrl with
  | error e =>
    have hnothing : Seen i s ⟨s.tables, s.console ++ emitted i.logLevel []⟩ := .idle (by simp)
    simpa [emitted] using hnothing
  | ok url =>
    unfold Invocation.session
    cases hcycle : i.settings.buildCycle i.around i.telemetry.toTelemetry with
    | error e =>
      obtain ⟨last, hafter, hlast⟩ := afterSession_error i e
      simp only [List.map_nil, List.nil_append, hafter, ← List.map_take, foldl_observe_lines]
      exact .idle fun event h => hlast event (List.mem_of_mem_take h)
    | ok c =>
      simp only [c.jobLogged_eval]
      cases houtcome : (c.outcome s.tables).1 with
      | error e =>
        obtain ⟨last, hafter, hlast⟩ := afterSession_error i e
        simp only [hafter, ← List.map_append, ← List.map_take, foldl_observe_lines,
          List.take_append]
        exact .stopped hcycle (List.take_prefix _ _)
          fun event h => hlast event (List.mem_of_mem_take h)
      | ok result =>
        obtain ⟨r, db⟩ := result
        obtain ⟨last, hafter, hlast⟩ := afterSession_ok i r db
        simp only [hafter]
        rw [List.take_append, List.length_map]
        by_cases hn : n ≤ (c.events s.tables).length
        · -- the cycle has not come to its commit
          rw [Nat.sub_eq_zero_of_le hn, List.take_zero, List.append_nil, ← List.map_take,
            foldl_observe_lines, ← List.append_nil ((c.events s.tables).take n)]
          exact .stopped hcycle (List.take_prefix _ _) (by simp)
        · obtain ⟨m, hm⟩ : ∃ m, n - (c.events s.tables).length = m + 1 :=
            ⟨n - (c.events s.tables).length - 1, by omega⟩
          rw [List.take_of_length_le (by rw [List.length_map]; omega), hm, List.take_succ_cons,
            ← List.map_take, List.foldl_append, foldl_observe_lines, List.foldl_cons, observe,
            foldl_observe_lines, List.append_assoc, emitted, emitted, ← List.filter_append]
          refine .committed hcycle houtcome ?_
          -- the exit may still be missing
          rcases hlast with rfl | rfl
          · exact .inl List.take_nil
          · cases m with
            | zero => exact .inl rfl
            | succ m => exact .inr (List.take_of_length_le (by simp))

/-- What can be seen of a process, whether or not it is killed. -/
theorem Invokes.seen {i : Invocation} {cut : Option ℕ} (h : s.Invokes (i, cut) s') :
    s.Seen i s' := by
  subst h
  cases cut with
  | none =>
    have hall : s.Seen i _ := seen_take i s (i.effects s.tables).length
    rwa [List.take_length] at hall
  | some n => exact seen_take i s n

/-- What a process does to the site. -/
inductive Leaves (s : Site) (threshold : LogLevel) : Site → Prop
  /-- It commits nothing. -/
  | lines {events : List LogEvent} : exits events = [] →
      Leaves s threshold ⟨s.tables, s.console ++ emitted threshold events⟩
  /-- It commits what it has reported, and may still log its exit. -/
  | commits {db : Database} {row : EquitySnapshotRecord} {order : List OrderRecord}
      {events last : List LogEvent} :
      db.equitySnapshots = s.tables.equitySnapshots ++ [row] →
      db.orders = s.tables.orders ++ order →
      completions events = [row.report] → executions events = order.map OrderRecord.report →
      exits events = [] →
      (last = [] ∨ ∃ outcome, last = [.exit row.cycleId outcome]) →
      Leaves s threshold ⟨db, s.console ++ emitted threshold (events ++ last)⟩

/-- Lines of failures are no exits. -/
private theorem exits_of_failures {last : List LogEvent}
    (h : ∀ event ∈ last, event.isFailure = true) : exits last = [] := by
  refine List.filterMap_eq_nil_iff.mpr fun event hevent => ?_
  have hfailure := h event hevent
  cases event <;> first | rfl | simp [LogEvent.isFailure, LogEvent.message] at hfailure

/-- The line of a failed cycle is no exit. -/
theorem exits_failureEvent (e : Error) : exits [failureEvent e] = [] :=
  exits_of_failures (by simpa using isFailure_failureEvent e)

/-- A process commits nothing, or what it has reported. -/
theorem Seen.leaves {i : Invocation} (h : s.Seen i s') : s.Leaves i.logLevel s' := by
  cases h with
  | idle hlast => exact .lines (exits_of_failures hlast)
  | @stopped c lines last hcycle hlines hlast =>
    refine .lines ?_
    have hnone : exits lines = [] :=
      List.sublist_nil.mp (c.exits_events s.tables ▸ hlines.sublist.filterMap _)
    rw [exits_append, hnone, exits_of_failures hlast, List.append_nil]
  | @committed c r db last hcycle houtcome hlast =>
    obtain ⟨row, order, hrows, horders, hid, hcompletions, hexecutions⟩ :=
      TradingCycle.events_of_outcome_ok houtcome
    refine .commits hrows horders hcompletions hexecutions (c.exits_events s.tables) ?_
    exact hlast.imp_right fun h => ⟨_, by rw [h, hid]⟩

/-! ## The console and the tables -/

/-- The exits are among the committed cycles, and these among the completed ones; the orders
    are among the executions. The tables are those that were there at the start, and what was
    committed since. -/
def Accounts (start : Database) (s : Site) : Prop :=
  ∃ rows orders, s.tables.equitySnapshots = start.equitySnapshots ++ rows ∧
    s.tables.orders = start.orders ++ orders ∧
    (exits s.console).Sublist (rows.map (·.cycleId)) ∧
    (rows.map EquitySnapshotRecord.report).Sublist (completions s.console) ∧
    (orders.map OrderRecord.report).Sublist (executions s.console)

/-- A process at an informational log level leaves the accounts in order. -/
theorem Accounts.leaves {start : Database} (h : s.Accounts start)
    (hlevel : threshold.value ≤ LogLevel.info.value) (hleaves : s.Leaves threshold s') :
    s'.Accounts start := by
  obtain ⟨rows, orders, hrows, horders, hexits, hcompletions, hexecutions⟩ := h
  cases hleaves with
  -- lines alone: the rows stay, and what is reported can only grow
  | lines hnone =>
    refine ⟨rows, orders, hrows, horders, ?_, ?_, ?_⟩
    · rw [emitted_of_le _ hlevel, exits_append, hnone, List.append_nil]
      exact hexits
    · rw [completions_append]
      exact hcompletions.trans (List.sublist_append_left _ _)
    · rw [executions_append]
      exact hexecutions.trans (List.sublist_append_left _ _)
  -- a commit: its row and its order are reported by its own lines
  | @commits db row order events last hrow horder hcompleted hexecuted hnone hlast =>
    rw [emitted_of_le _ hlevel]
    refine ⟨rows ++ [row], orders ++ order, ?_, ?_, ?_, ?_, ?_⟩
    · rw [hrow, hrows, List.append_assoc]
    · rw [horder, horders, List.append_assoc]
    · rw [exits_append, exits_append, hnone, List.nil_append, List.map_append]
      refine hexits.append ?_
      rcases hlast with rfl | ⟨outcome, rfl⟩
      · exact List.nil_sublist _
      · exact List.Sublist.refl _
    · rw [completions_append, completions_append, hcompleted, List.map_append]
      exact hcompletions.append (List.sublist_append_left _ _)
    · rw [executions_append, executions_append, hexecuted, List.map_append]
      exact hexecutions.append (List.sublist_append_left _ _)

/-! ## Undisturbed processes -/

/-- The lines that report a failure. -/
def failures (console : List LogEvent) : ℕ := console.countP LogEvent.isFailure

/-- The failures of a longer console are those of its two parts. -/
@[simp] theorem failures_append (console lines : List LogEvent) :
    failures (console ++ lines) = failures console + failures lines :=
  List.countP_append

/-- What a process does to the site when nothing gets in its way: it commits, or it reports
    its failure and nothing else. -/
inductive Ends (s : Site) : Site → Prop
  | failed {events : List LogEvent} : completions events = [] → executions events = [] →
      exits events = [] → failures events = 1 → Ends s ⟨s.tables, s.console ++ events⟩
  | committed {db : Database} {row : EquitySnapshotRecord} {order : List OrderRecord}
      {events : List LogEvent} :
      db.equitySnapshots = s.tables.equitySnapshots ++ [row] →
      db.orders = s.tables.orders ++ order →
      completions events = [row.report] → executions events = order.map OrderRecord.report →
      exits events = [row.cycleId] → failures events = 0 → Ends s ⟨db, s.console ++ events⟩

/-- A process that is not killed, that has a database, whose telemetry never raises and whose
    cycle writes nothing at its commit that a column does not take. -/
structure Undisturbed (s : Site) (call : Invocation × Option ℕ) : Prop where
  lives : call.2 = none
  database : call.1.settings.databaseUrl.isSome = true
  telemetry : call.1.telemetry.Returns
  logs : call.1.logLevel.value ≤ LogLevel.info.value
  stores : ∀ c p settlement sent,
    call.1.settings.buildCycle call.1.around call.1.telemetry.toTelemetry = .ok c →
    c.Prepares s.tables p → c.Settles s.tables p settlement sent →
    (c.pending p settlement).storable = true

/-- The cycle itself never writes the line of a failure. -/
private theorem failures_events (c : TradingCycle) (db : Database) :
    failures (c.events db) = 0 := by
  refine List.countP_eq_zero.mpr fun event h => ?_
  have hrun := TradingCycle.isRunEvent_of_mem_events h
  cases event <;> first | exact hrun.elim | simp [LogEvent.isFailure, LogEvent.message]

/-- The line of a failed cycle counts as one failure, and as nothing else. -/
private theorem failureEvent_reports (e : Error) : completions [failureEvent e] = [] ∧
    executions [failureEvent e] = [] ∧ failures [failureEvent e] = 1 := by
  unfold failureEvent
  split <;> exact ⟨rfl, rfl, by simp [failures, LogEvent.isFailure, LogEvent.message]⟩

/-- A process whose cycle fails leaves the tables alone and one failure on the console. -/
private theorem ends_of_failure (events : List LogEvent) (e : Error)
    (hcompletions : completions events = []) (hexecutions : executions events = [])
    (hexits : exits events = []) (hfailures : failures events = 0) :
    s.Ends ⟨s.tables, s.console ++ (events ++ [failureEvent e])⟩ := by
  obtain ⟨hcompletions', hexecutions', hfailures'⟩ := failureEvent_reports e
  refine .failed ?_ ?_ ?_ ?_
  · rw [completions_append, hcompletions, hcompletions', List.append_nil]
  · rw [executions_append, hexecutions, hexecutions', List.append_nil]
  · rw [exits_append, hexits, exits_failureEvent, List.append_nil]
  · rw [failures_append, hfailures, hfailures']

/-- A process that nothing disturbs ends one way or the other. -/
theorem Undisturbed.ends {call : Invocation × Option ℕ} (h : s.Undisturbed call) :
    s.Ends (s.invoke call) := by
  obtain ⟨i, cut⟩ := call
  obtain rfl : cut = none := h.lives
  obtain ⟨url, hurl⟩ : ∃ url, i.settings.databaseUrl = some url :=
    Option.isSome_iff_exists.mp h.database
  have hreturns : i.telemetry.Returns := h.telemetry
  have hlevel : i.logLevel.value ≤ LogLevel.info.value := h.logs
  -- a failure leaves its line after those of the cycle, and all of them are emitted
  have hfailed : ∀ (events : List LogEvent) (e : Error),
      (events.map Effect.line ++ i.afterSession (.error e)).foldl (observe i.logLevel) s =
        ⟨s.tables, s.console ++ (events ++ [failureEvent e])⟩ := by
    intro events e
    have hline : events.map Effect.line ++ i.afterSession (.error e) =
        (events ++ [failureEvent e]).map .line := by
      simp [Invocation.afterSession, hreturns.error]
    rw [hline, foldl_observe_lines, emitted_of_le _ hlevel]
  simp only [invoke, Invocation.effects, Settings.requireDatabaseUrl, hurl]
  unfold Invocation.session
  -- three endings: no cycle was built, the cycle raised, or it committed
  cases hcycle : i.settings.buildCycle i.around i.telemetry.toTelemetry with
  | error e =>
    have hending := hfailed [] e
    rw [List.map_nil] at hending
    simp only [List.map_nil, hending]
    exact ends_of_failure [] e rfl rfl rfl rfl
  | ok c =>
    simp only [c.jobLogged_eval]
    have hexits := c.exits_events s.tables
    have hfailures := failures_events c s.tables
    cases houtcome : (c.outcome s.tables).1 with
    | error e =>
      simp only [hfailed]
      have htelemetry := Settings.buildCycle_telemetry hcycle
      obtain ⟨hcompletions, hexecutions⟩ := TradingCycle.events_of_outcome_error houtcome
        fun p settlement sent hp hs =>
          ⟨htelemetry ▸ hreturns.takes _ _ _ _, h.stores c p settlement sent hcycle hp hs⟩
      exact ends_of_failure _ e hcompletions hexecutions hexits hfailures
    | ok result =>
      obtain ⟨r, db⟩ := result
      obtain ⟨row, order, hrows, horders, hid, hcompletions, hexecutions⟩ :=
        TradingCycle.events_of_outcome_ok houtcome
      simp only [Invocation.afterSession, hreturns.flush, List.foldl_append, foldl_observe_lines,
        List.foldl_cons, List.foldl_nil, observe, emitted_of_le _ hlevel, List.append_assoc]
      refine .committed hrows horders ?_ ?_ ?_ ?_
      · rw [completions_append, hcompletions]
        rfl
      · rw [executions_append, hexecutions]
        exact List.append_nil _
      · rw [exits_append, hexits, hid]
        rfl
      · have hexit : failures [.exit r.cycleId r.decision.outcome] = 0 := by
          simp [failures, LogEvent.isFailure, LogEvent.message]
        rw [failures_append, hfailures, hexit]

/-- After a number of processes, the exits, the committed cycles and the completed ones are the
    same, the orders are the executions, and every other process has reported a failure. -/
def Balances (start : Database) (s : Site) (processes : ℕ) : Prop :=
  ∃ rows orders, s.tables.equitySnapshots = start.equitySnapshots ++ rows ∧
    s.tables.orders = start.orders ++ orders ∧
    exits s.console = rows.map (·.cycleId) ∧
    completions s.console = rows.map EquitySnapshotRecord.report ∧
    executions s.console = orders.map OrderRecord.report ∧
    failures s.console + rows.length = processes

/-- The balance survives one more process. -/
theorem Balances.ends {start : Database} {processes : ℕ} (h : s.Balances start processes)
    (hends : s.Ends s') : s'.Balances start (processes + 1) := by
  obtain ⟨rows, orders, hrows, horders, hexits, hcompletions, hexecutions, hcount⟩ := h
  cases hends with
  -- one more failure, and no row
  | failed hcompleted hexecuted hexited hfailed =>
    refine ⟨rows, orders, hrows, horders, ?_, ?_, ?_, ?_⟩
    · rw [exits_append, hexited, List.append_nil, hexits]
    · rw [completions_append, hcompleted, List.append_nil, hcompletions]
    · rw [executions_append, hexecuted, List.append_nil, hexecutions]
    · rw [failures_append, hfailed]
      omega
  -- one more row, and no failure
  | @committed db row order events hrow horder hcompleted hexecuted hexited hfailed =>
    refine ⟨rows ++ [row], orders ++ order, ?_, ?_, ?_, ?_, ?_, ?_⟩
    · rw [hrow, hrows, List.append_assoc]
    · rw [horder, horders, List.append_assoc]
    · rw [exits_append, hexited, hexits, List.map_append, List.map_singleton]
    · rw [completions_append, hcompleted, hcompletions, List.map_append, List.map_singleton]
    · rw [executions_append, hexecuted, hexecutions, List.map_append]
    · rw [failures_append, hfailed, List.length_append, List.length_singleton]
      omega

/-- A failed cycle has been reported exactly when some process did not commit. -/
theorem Balances.failureAlert_iff {start : Database} {processes : ℕ}
    (h : s.Balances start processes) : failureAlert s.console = true ↔
      s.tables.equitySnapshots.length < start.equitySnapshots.length + processes := by
  obtain ⟨rows, -, hrows, -, -, -, -, hcount⟩ := h
  have halert : failureAlert s.console = true ↔ 0 < failures s.console := by
    rw [failureAlert, failures, List.countP_pos_iff, List.any_eq_true]
  rw [halert, hrows, List.length_append]
  omega

/-- A process that is not killed leaves the rows of the entry point. -/
def Leaving (db : Database) (call : Invocation × Option ℕ) (db' : Database) : Prop :=
  db' = (main call.1.settings call.1.around call.1.telemetry db).tables

/-- Processes that are not killed leave the rows that `main` does, one after the other. -/
private theorem leaving_of_invokes {calls : List (Invocation × Option ℕ)} {start : Site}
    (hrun : Runs Invokes start calls s) (halive : ∀ call ∈ calls, call.2 = none) :
    Runs Leaving start.tables calls s.tables := by
  induction hrun with
  | nil => exact .nil
  | @snoc calls t u call _ hlast ih =>
    rw [List.forall_mem_append] at halive
    obtain ⟨i, cut⟩ := call
    obtain rfl : cut = none := halive.2 _ (List.mem_singleton_self _)
    obtain rfl : u = t.invoke (i, none) := hlast
    exact (ih halive.1).snoc (t.invoke_tables i)

/-- The console log accounts for the tables. Over every sequence of processes with an
    informational log level, whatever raises in them and wherever they are killed, the cycles
    that are logged as ended well are among the committed ones, and these among the completed
    ones; so a window without a completed cycle is one without a commit. If none is killed, the
    tables are those the entry point leaves, run after run. If no process is disturbed, the
    three are all the same, and the alert on failed cycles fires exactly when some process did
    not commit. -/
theorem console_accounts_for_tables {db : Database} {calls : List (Invocation × Option ℕ)}
    (hlevel : ∀ call ∈ calls, call.1.logLevel.value ≤ LogLevel.info.value)
    (hrun : Runs Invokes ⟨db, []⟩ calls s) :
    s.Accounts db ∧
      (completedCycles s.console = 0 → s.tables.equitySnapshots = db.equitySnapshots) ∧
      ((∀ call ∈ calls, call.2 = none) → Runs Leaving db calls s.tables) ∧
      (Runs (fun s call s' => s.Invokes call s' ∧ s.Undisturbed call) ⟨db, []⟩ calls s →
        s.Balances db calls.length ∧ (failureAlert s.console = true ↔
          s.tables.equitySnapshots.length < db.equitySnapshots.length + calls.length)) := by
  -- the account is an invariant of every call, killed or not
  have haccounts : s.Accounts db := by
    refine hrun.invariant (I := Accounts db) ?_ fun t call u hcall ht hinvokes =>
      ht.leaves (hlevel call hcall) hinvokes.seen.leaves
    exact ⟨[], [], (List.append_nil _).symm, (List.append_nil _).symm, List.nil_sublist _,
      List.nil_sublist _, List.nil_sublist _⟩
  refine ⟨haccounts, fun hsilent => ?_, fun halive => ?_, fun hundisturbed => ?_⟩
  · obtain ⟨rows, _, hrows, -, -, hcompletions, -⟩ := haccounts
    rw [completedCycles_eq] at hsilent
    have hnone : rows.length ≤ 0 := by
      have hlength := hcompletions.length_le
      rwa [List.length_map, hsilent] at hlength
    rw [hrows, List.eq_nil_of_length_eq_zero (Nat.le_zero.mp hnone), List.append_nil]
  · exact leaving_of_invokes hrun halive
  -- the balance counts the calls, so the induction is over their number
  · have hbalances : s.Balances db calls.length := by
      have hpairs : calls.Pairwise fun _ _ => True := List.pairwise_of_forall fun _ _ => trivial
      refine hundisturbed.invariant_of_pairwise (P := fun calls t => t.Balances db calls.length)
        hpairs ?_ fun before t call u hcall _ ht hinvokes => ?_
      · exact ⟨[], [], (List.append_nil _).symm, (List.append_nil _).symm, rfl, rfl, rfl, rfl⟩
      · obtain ⟨rfl, hends⟩ := hinvokes
        rw [List.length_append, List.length_singleton]
        exact ht.ends hends.ends
    exact ⟨hbalances, hbalances.failureAlert_iff⟩

end Site

/-- A process of the rising market. -/
def risingCall (telemetry : TelemetryExporter) : Invocation :=
  ⟨shortSettings, risingSurroundings, telemetry, .info⟩

/-- A process that is killed after two lines, and one that is not disturbed. -/
def risingCalls : List (Invocation × Option ℕ) :=
  [(risingCall nullExporter, some 2), (risingCall nullExporter, none)]

/-- The console once both have run. -/
theorem console_accounts_for_tables_rising :
    let s := risingCalls.foldl Site.invoke ⟨Database.empty, []⟩
    s.console.map LogEvent.message = ["cycle.decision", "cycle.executed", "cycle.decision",
      "cycle.executed", "cycle.completed", "cycle.exit"] ∧ s.Accounts Database.empty := by
  have hmessages : (risingCalls.foldl Site.invoke ⟨Database.empty, []⟩).console.map
      LogEvent.message = ["cycle.decision", "cycle.executed", "cycle.decision",
        "cycle.executed", "cycle.completed", "cycle.exit"] := by
    decide +kernel
  have hlevel : ∀ call ∈ risingCalls, call.1.logLevel.value ≤ LogLevel.info.value := by
    simp [risingCalls, risingCall]
  exact ⟨hmessages, (Site.console_accounts_for_tables hlevel (Runs.foldl_eq.mpr rfl)).1⟩

end TradingBot
