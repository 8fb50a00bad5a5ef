import TradingBot.Main
import TradingBot.Spec.CycleSteps
import TradingBot.Spec.Scenario

/-!
# What telemetry can change

Telemetry never changes what is submitted, but a call that raises ends the cycle it is made
in, and what the cycle did is then rolled back. This file says exactly which calls of a run
have to return for a process to end as it would without telemetry.
-/

namespace TradingBot

/-- Telemetry takes the report of a failure. -/
def TelemetryExporter.Reports (t : TelemetryExporter) (e : Error) : Prop :=
  t.recordError e.typeName = .ok ()

/-- Telemetry takes the report of the failure that ends a run: it is that of the calls made
    before, where one of them raises. -/
def TelemetryExporter.ReportsAfter (t : TelemetryExporter) (calls : Except Error Unit)
    (e : Error) : Prop :=
  match calls with
  | .error e' => t.Reports e'
  | .ok _ => t.Reports e

/-- The calls of a cycle that has settled, in their order. -/
def Telemetry.conclude (t : Telemetry) (symbol : String) (outcome : DecisionOutcome)
    (equity : EquitySnapshot) (A : DecimalContext := .exact) : Except Error Unit := do
  t.recordDecision outcome symbol
  t.recordEquity equity.equityQuote (equity.drawdownRatioIn A) symbol
  t.recordCycleDuration symbol

namespace TradingCycle

variable {A : DecimalContext} {c : TradingCycle} {db : Database} {p : Prepared} {s : Settlement}
  {intent : OrderIntent} {execution : OrderExecution}

/-- The order of a decision, if it was not sent before. -/
def newOrder (db : Database) (p : Prepared) : Option OrderIntent :=
  p.decision.intent.filter fun intent => !db.alreadyExecuted intent.clientOrderId

/-- What is booked of an answer: it is folded into the ledger, and its rows are written. -/
def booked (p : Prepared) (execution : OrderExecution) (A : DecimalContext := .exact) :
    Except Error Executed := do
  let update ← applyExecutionIn A p.account.cashQuote p.account.position execution
  let rows := recordExecution p.cycleId p.decision execution
  autoflush (rows.1.storable && rows.2.all FillRecord.storable)
  return executedAs p execution update

/-- The calls of a cycle that settles let it end as it would without telemetry: those of its
    order and those of its end return where the columns take its last rows, and where they do
    not, the failure can be reported. -/
def EndSparedBy (c : TradingCycle) (p : Prepared) (s : Settlement) (t : TelemetryExporter)
    (ordered : Except Error Unit) (A : DecimalContext := .exact) : Prop :=
  ∀ equity : EquitySnapshot,
    equity.equityQuote = equityIn A s.cash s.position p.markPrice →
    equity.dayOpeningEquity = p.account.dayOpeningEquity →
    let calls := do ordered; t.conclude c.symbol p.decision.outcome equity A
    if (c.pending p s A).storable then calls = .ok () else t.ReportsAfter calls .dataError

/-- The calls made from the answer to an order on let the cycle end as it would without
    telemetry. -/
def OrderSparedBy (c : TradingCycle) (db : Database) (p : Prepared) (intent : OrderIntent)
    (t : TelemetryExporter) (A : DecimalContext := .exact) : Prop :=
  match c.gateway.submit intent with
  | .error e => t.Reports e
  | .ok execution =>
    match booked p execution A with
    -- the latency is recorded before the answer is booked
    | .error e => t.ReportsAfter (t.recordOrderLatency c.symbol intent.side) e
    | .ok x =>
      c.EndSparedBy p (c.settle db x) t (t.recordOrderLatency c.symbol intent.side) A

/-- The calls a cycle makes let it end as it would without telemetry: where the cycle
    completes they all return, and where it fails its failure can be reported. -/
def SparedBy (c : TradingCycle) (db : Database) (t : TelemetryExporter)
    (A : DecimalContext := .exact) : Prop :=
  match c.prepare db A with
  | .error e => t.Reports e
  | .ok p =>
    match newOrder db p with
    | none => c.EndSparedBy p (.unchanged p.account p.decision.intent.isSome) t (.ok ()) A
    | some intent => c.OrderSparedBy db p intent t A

/-! ## The ways a cycle can go -/

/-- A cycle has nothing to submit if its decision holds or its order is known. -/
theorem newOrder_eq_none (h : newOrder db p = none) :
    p.decision.intent = none ∨
      ∃ intent, p.decision.intent = some intent ∧
        db.alreadyExecuted intent.clientOrderId = true := by
  cases hintent : p.decision.intent with
  | none => exact .inl rfl
  | some intent => exact .inr ⟨intent, rfl, by simpa [newOrder, hintent] using h⟩

/-- A cycle submits the order of its decision if that is not known. -/
theorem newOrder_eq_some (h : newOrder db p = some intent) :
    p.decision.intent = some intent ∧ db.alreadyExecuted intent.clientOrderId = false := by
  simpa [newOrder, Option.filter_eq_some_iff] using h

/-- Without a new order the account stays as it was loaded. -/
theorem settles_of_newOrder_none (c : TradingCycle) (h : newOrder db p = none) :
    c.Settles db p (.unchanged p.account p.decision.intent.isSome) [] A := by
  rcases newOrder_eq_none h with hnone | ⟨intent, hintent, hknown⟩
  · rw [hnone]
    exact .held hnone
  · rw [hintent]
    exact .suppressed hintent hknown

/-- Acting on a decision with a new order is sending it. -/
theorem execute_of_newOrder (c : TradingCycle) (h : newOrder db p = some intent) :
    (c.execute db p A).eval [] = (c.settle db <$> c.afterSubmit p intent A, [intent]) := by
  obtain ⟨hintent, hnew⟩ := newOrder_eq_some h
  have houtcome := p.decision.intent_matches.mpr (by simp [hintent])
  unfold execute
  simp only [houtcome, hintent, hnew, Bool.false_eq_true, if_false, ExceptT.eval_bind, send_eval]
  cases c.afterSubmit p intent A <;> rfl

/-- What is submitted is the new order of the decision, whatever telemetry does. -/
theorem submitted_eq (c : TradingCycle) (db : Database) :
    (c.outcome db A).2 =
      match c.prepare db A with
      | .error _ => []
      | .ok p => (newOrder db p).toList := by
  rcases c.outcome_sent (A := A) db with ⟨hknown, hnone⟩ | ⟨p, intent, hp, hintent, hnew, hsent⟩
  · rw [hnone]
    cases hprepare : c.prepare db A with
    | error e => rfl
    | ok p =>
      -- an order of the decision would have been sent
      have hnothing : newOrder db p = none := by
        by_contra hsome
        obtain ⟨intent, hintent⟩ := Option.ne_none_iff_exists'.mp hsome
        obtain ⟨hdecided, hnew⟩ := newOrder_eq_some hintent
        have hdone := hknown p intent (prepare_ok.mp hprepare) hdecided
        exact absurd (hdone.symm.trans hnew) nofun
      simp only [hnothing, Option.toList_none]
  · have horder : newOrder db p = some intent := by simp [newOrder, hintent, hnew]
    simp only [prepare_ok.mpr hp, horder, hsent, Option.toList_some]

/-- What follows the answer to an order: its latency is recorded, and it is booked. -/
theorem afterSubmit_eq (c : TradingCycle) (p : Prepared) (intent : OrderIntent) :
    c.afterSubmit p intent A = (do
      let execution ← c.gateway.submit intent
      c.telemetry.recordOrderLatency c.symbol intent.side
      booked p execution A) := rfl

/-- A prepared cycle whose rows find their place ends with the calls to telemetry and, where
    these return, with the commit. -/
theorem exists_finish_eq (hp : c.Prepares db p A) (hfits : (c.pending p s A).Fits db) :
    ∃ (equity : EquitySnapshot) (r : CycleResult),
      equity.equityQuote = equityIn A s.cash s.position p.markPrice ∧
      equity.dayOpeningEquity = p.account.dayOpeningEquity ∧
      c.finish p s db A = (do
        c.telemetry.conclude c.symbol p.decision.outcome equity A
        (c.pending p s A).flush
        return (r, (c.pending p s A).applyTo db)) := by
  -- the snapshot is always valid: what it is made of has been checked before
  have hchecks : AllHold (EquitySnapshot.checks p.markPrice s.position.quantity
      p.account.dayOpeningEquity) :=
    ⟨hp.markPrice_pos, s.position.quantity_nonneg, p.account.dayOpeningEquity_pos, trivial⟩
  let equity : EquitySnapshot := ⟨c.clock, c.symbol, p.markPrice, s.cash, s.position.quantity,
    equityIn A s.cash s.position p.markPrice, p.account.dayOpeningEquity, hchecks.1,
    hchecks.2.1, hchecks.2.2.1⟩
  refine ⟨equity, ⟨p.cycleId, p.signal, p.decision, s.execution, equity, s.duplicateSuppressed⟩,
    rfl, rfl, ?_⟩
  have hcommit : (c.pending p s A).commitSession db = (do
      (c.pending p s A).flush
      return (c.pending p s A).applyTo db) := by
    rw [Transaction.commitSession, Transaction.commit_ok_iff.mpr ⟨hfits, rfl⟩]
    rfl
  simp only [finish, conclude, EquitySnapshot.validate, validated_of_holds hchecks,
    Telemetry.conclude, bind_assoc, pure_bind]
  change (do
    c.telemetry.recordDecision p.decision.outcome c.symbol
    c.telemetry.recordEquity _ _ c.symbol
    c.telemetry.recordCycleDuration c.symbol
    let db' ← (c.pending p s A).commitSession db
    return (_, db')) = _
  simp only [hcommit, bind_assoc, pure_bind]
  rfl

/-- The outcome of a cycle with a new order. -/
theorem outcome_of_newOrder (c : TradingCycle) (hprepare : c.prepare db A = .ok p)
    (horder : newOrder db p = some intent) :
    (c.outcome db A).1 = (do
      let x ← c.afterSubmit p intent A
      c.finish p (c.settle db x) db A) := by
  rw [outcome_fst, hprepare]
  simp only [bind, Except.bind, c.execute_of_newOrder horder]
  cases c.afterSubmit p intent A <;> rfl

/-- The outcome of a cycle without one. -/
theorem outcome_of_newOrder_none (c : TradingCycle) (hprepare : c.prepare db A = .ok p)
    (horder : newOrder db p = none) :
    (c.outcome db A).1 = c.finish p (.unchanged p.account p.decision.intent.isSome) db A := by
  rw [outcome_fst, hprepare]
  simp only [bind, Except.bind, execute_ok.mpr (c.settles_of_newOrder_none horder)]

/-- The same cycle with telemetry that records nothing. -/
def muted (c : TradingCycle) : TradingCycle := { c with telemetry := nullTelemetry }

end TradingCycle

/-! ## Endings -/

/-- The exit code and the rows of a process whose session had an outcome. -/
def sessionEnd (t : TelemetryExporter) (db : Database)
    (outcome : Except Error (CycleResult × Database)) : Except Error ℕ × Database :=
  (do t.flush; exitCode t outcome, tablesAfter db outcome)

section Endings

variable {t : TelemetryExporter} {db u : Database} {e e' : Error} {r r' : CycleResult}

/-- A failed cycle ends as any failed cycle does when telemetry takes the report of it. -/
theorem sessionEnd_error_iff :
    sessionEnd t db (.error e) = sessionEnd nullExporter db (.error e') ↔
      t.flush = .ok () ∧ t.Reports e := by
  unfold sessionEnd exitCode TelemetryExporter.Reports
  cases t.flush with
  | error _ => simp [bind, Except.bind, nullExporter, pure, Except.pure]
  | ok _ =>
    cases hreport : t.recordError e.typeName <;>
      simp [bind, Except.bind, nullExporter, pure, Except.pure, tablesAfter, hreport]

/-- A cycle that fails after some calls ends as one that fails without them when telemetry
    takes the report. -/
theorem sessionEnd_after_iff {calls : Except Error Unit} :
    sessionEnd t db (do calls; .error e) = sessionEnd nullExporter db (.error e') ↔
      t.flush = .ok () ∧ t.ReportsAfter calls e := by
  cases calls <;> exact sessionEnd_error_iff

/-- A session that went through is ended alike exactly where the telemetry flushes. -/
theorem sessionEnd_ok_iff :
    sessionEnd t db (.ok (r, u)) = sessionEnd nullExporter db (.ok (r', u)) ↔ t.flush = .ok () := by
  unfold sessionEnd exitCode
  cases t.flush <;> simp [bind, Except.bind, nullExporter, tablesAfter]

/-- A failed cycle never ends as one that committed. -/
theorem sessionEnd_error_ne :
    sessionEnd t db (.error e) ≠ sessionEnd nullExporter db (.ok (r, u)) := by
  unfold sessionEnd exitCode
  cases t.flush with
  | error _ => simp [bind, Except.bind, nullExporter]
  | ok _ =>
    cases hreport : t.recordError e.typeName <;>
      simp [bind, Except.bind, nullExporter, pure, Except.pure, exitOk, exitFailed, hreport]

end Endings

namespace TradingCycle

variable {A : DecimalContext} {c : TradingCycle} {db : Database} {p : Prepared}
  {t : TelemetryExporter} {ordered : Except Error Unit}

/-- What a cycle reports of its equity is the same for all snapshots of that equity. -/
theorem endSparedBy_iff {s : Settlement} {equity : EquitySnapshot}
    (hequity : equity.equityQuote = equityIn A s.cash s.position p.markPrice)
    (hopening : equity.dayOpeningEquity = p.account.dayOpeningEquity) :
    c.EndSparedBy p s t ordered A ↔
      let calls := do ordered; t.conclude c.symbol p.decision.outcome equity A
      if (c.pending p s A).storable then calls = .ok () else t.ReportsAfter calls .dataError := by
  constructor
  · intro h
    exact h equity hequity hopening
  · intro h equity' hequity' hopening'
    have hsame : t.conclude c.symbol p.decision.outcome equity' A =
        t.conclude c.symbol p.decision.outcome equity A := by
      simp only [Telemetry.conclude, EquitySnapshot.drawdownRatioIn, hequity, hopening, hequity',
        hopening']
    rw [hsame]
    exact h

/-- A cycle that settles ends as the muted one when telemetry spares its end. -/
theorem sessionEnd_finish_iff (ordered : Except Error Unit) (ht : c.telemetry = t.toTelemetry)
    (hp : c.Prepares db p A) {s : Settlement} (hfits : (c.pending p s A).Fits db) :
    sessionEnd t db (do ordered; c.finish p s db A) =
        sessionEnd nullExporter db (c.muted.finish p s db A) ↔
      t.flush = .ok () ∧ c.EndSparedBy p s t ordered A := by
  have hmuted : c.muted.Prepares db p A :=
    prepare_ok.mp (show c.prepare db A = .ok p from prepare_ok.mpr hp)
  obtain ⟨equity, r, hequity, hopening, hfinish⟩ := exists_finish_eq hp hfits
  obtain ⟨equity', r', -, -, hfinish'⟩ := exists_finish_eq hmuted hfits
  have hsilent : c.muted.telemetry.conclude c.muted.symbol p.decision.outcome equity' A = .ok () :=
    rfl
  have hrows : c.muted.pending p s A = c.pending p s A := rfl
  rw [hfinish, hfinish', endSparedBy_iff hequity hopening, ht, hsilent, hrows, ← bind_assoc]
  generalize (do ordered; t.conclude c.symbol p.decision.outcome equity A) = calls
  unfold Transaction.flush
  cases (c.pending p s A).storable with
  | false => exact sessionEnd_after_iff
  | true =>
    cases calls with
    | error e =>
      -- without telemetry the cycle commits
      exact iff_of_false sessionEnd_error_ne (by simp)
    | ok _ => exact sessionEnd_ok_iff.trans (by simp)

/-- A cycle that sends an order ends as the muted one when telemetry spares the order. -/
theorem sessionEnd_sent_iff (ht : c.telemetry = t.toTelemetry) (hp : c.Prepares db p A)
    {intent : OrderIntent} (horder : newOrder db p = some intent) :
    sessionEnd t db (do let x ← c.afterSubmit p intent A; c.finish p (c.settle db x) db A) =
        sessionEnd nullExporter db (do
          let x ← c.muted.afterSubmit p intent A
          c.muted.finish p (c.muted.settle db x) db A) ↔
      t.flush = .ok () ∧ c.OrderSparedBy db p intent t A := by
  unfold OrderSparedBy
  have hsilent : c.muted.telemetry.recordOrderLatency c.muted.symbol intent.side = .ok () := rfl
  rw [afterSubmit_eq, afterSubmit_eq, hsilent, ht]
  change sessionEnd t db (do
      let x ← (do
        let execution ← c.gateway.submit intent
        t.recordOrderLatency c.symbol intent.side
        booked p execution A)
      c.finish p (c.settle db x) db A) =
    sessionEnd nullExporter db (do
      let x ← (do
        let execution ← c.gateway.submit intent
        booked p execution A)
      c.muted.finish p (c.settle db x) db A) ↔ _
  cases hanswer : c.gateway.submit intent with
  | error e => exact sessionEnd_error_iff
  | ok execution =>
    cases hbooked : booked p execution A with
    | error e =>
      simp only [hbooked, bind, Except.bind]
      cases t.recordOrderLatency c.symbol intent.side <;> exact sessionEnd_error_iff
    | ok x =>
      obtain ⟨hintent, hnew⟩ := newOrder_eq_some horder
      -- the muted cycle settles, and so its rows find their place
      have hsends : c.muted.Sends p intent x A := afterSubmit_ok.mp (by
        rw [afterSubmit_eq]
        exact Except.bind_eq_ok.mpr ⟨execution, hanswer, hbooked⟩)
      have hsettles : c.muted.Settles db p (c.muted.settle db x) [intent] A :=
        .sent hintent hnew hsends
      have hfits : (c.pending p (c.settle db x) A).Fits db := hsettles.fits
      have hending := sessionEnd_finish_iff (t.recordOrderLatency c.symbol intent.side) ht hp hfits
      simp only [hbooked, bind, Except.bind]
      refine Iff.trans ?_ hending
      cases t.recordOrderLatency c.symbol intent.side <;> exact Iff.rfl

/-- A cycle ends as the muted one exactly when telemetry spares it and can be flushed. -/
theorem sessionEnd_eq_iff (ht : c.telemetry = t.toTelemetry) :
    sessionEnd t db (c.outcome db A).1 = sessionEnd nullExporter db (c.muted.outcome db A).1 ↔
      t.flush = .ok () ∧ c.SparedBy db t A := by
  unfold SparedBy
  -- telemetry is first called after the cycle was prepared
  cases hprepare : c.prepare db A with
  | error e =>
    have hmuted : c.muted.prepare db A = .error e := hprepare
    simp only [outcome_fst, hprepare, hmuted, bind, Except.bind]
    exact sessionEnd_error_iff
  | ok p =>
    have hmuted : c.muted.prepare db A = .ok p := hprepare
    have hp := prepare_ok.mp hprepare
    -- without a new order it is only called at the end
    cases horder : newOrder db p with
    | none =>
      simp only [c.outcome_of_newOrder_none hprepare horder,
        c.muted.outcome_of_newOrder_none hmuted horder, horder]
      exact sessionEnd_finish_iff (.ok ()) ht hp (c.settles_of_newOrder_none horder).fits
    | some intent =>
      simp only [c.outcome_of_newOrder hprepare horder, c.muted.outcome_of_newOrder hmuted horder,
        horder]
      exact sessionEnd_sent_iff ht hp horder

end TradingCycle

/-! ## Processes -/

/-- Telemetry is only handed through when a cycle is built. -/
theorem Settings.buildCycle_muted (settings : Settings) (around : Surroundings)
    (telemetry : Telemetry) (A : DecimalContext) :
    settings.buildCycle around nullTelemetry A =
      TradingCycle.muted <$> settings.buildCycle around telemetry A := by
  unfold buildCycle
  cases RiskLimits.validate settings.maxPositionQuote settings.maxDailyLossQuote
      settings.minOrderNotionalQuote with
  | error e => rfl
  | ok limits =>
    cases settings.buildGateway around A with
    | error e => rfl
    | ok gateway =>
      cases SmaCrossoverStrategy.create settings.smaFast settings.smaSlow (1 / 100) with
      | error e => rfl
      | ok strategy => rfl

/-- The cycle has the telemetry it was built with. -/
theorem Settings.buildCycle_telemetry {settings : Settings} {around : Surroundings}
    {telemetry : Telemetry} {A : DecimalContext} {c : TradingCycle}
    (h : settings.buildCycle around telemetry A = .ok c) : c.telemetry = telemetry := by
  obtain ⟨limits, -, h⟩ := Except.bind_eq_ok.mp h
  obtain ⟨gateway, -, h⟩ := Except.bind_eq_ok.mp h
  obtain ⟨strategy, -, h⟩ := Except.bind_eq_ok.mp h
  cases h
  rfl

/-- The calls of a process to telemetry let it end as it would without: it can be flushed,
    a cycle that cannot be built can be reported, and one that is built is spared. -/
def TelemetryExporter.Spares (t : TelemetryExporter) (settings : Settings)
    (around : Surroundings) (db : Database) (A : DecimalContext := .exact) : Prop :=
  t.flush = .ok () ∧
    match settings.buildCycle around t.toTelemetry A with
    | .error e => t.Reports e
    | .ok c => c.SparedBy db t A

/-- A process ends as it would without telemetry, with the same intents submitted, the same
    rows committed and the same exit code, exactly when its telemetry spares it, whatever its
    decimals are computed in. Without a database URL telemetry is never called. -/
theorem main_eq_main_nullExporter_iff (settings : Settings) (around : Surroundings)
    (t : TelemetryExporter) (db : Database) (A : DecimalContext) :
    main settings around t db A = main settings around nullExporter db A ↔
      (settings.databaseUrl.isSome → t.Spares settings around db A) := by
  unfold main Settings.requireDatabaseUrl
  cases settings.databaseUrl with
  | none => simp
  | some url =>
    simp only [Option.isSome_some, forall_const]
    unfold TelemetryExporter.Spares runSession
    have hmuted := settings.buildCycle_muted around t.toTelemetry A
    change settings.buildCycle around nullExporter.toTelemetry A = _ at hmuted
    rw [hmuted]
    cases hbuilt : settings.buildCycle around t.toTelemetry A with
    | error e =>
      have hending : sessionEnd t db (.error e) = sessionEnd nullExporter db (.error e) ↔ _ :=
        sessionEnd_error_iff
      rw [← hending]
      simp only [Functor.map, Except.map, Ending.mk.injEq, sessionEnd, Prod.mk.injEq, and_true]
    | ok c =>
      have hending : _ ↔ t.flush = .ok () ∧ c.SparedBy db t A :=
        TradingCycle.sessionEnd_eq_iff (Settings.buildCycle_telemetry hbuilt)
      -- what is submitted does not depend on telemetry
      have hsubmitted : (c.outcome db A).2 = (c.muted.outcome db A).2 := by
        have hprepare : c.muted.prepare db A = c.prepare db A := rfl
        rw [c.submitted_eq, c.muted.submitted_eq, hprepare]
      simp only [Functor.map, Except.map, Ending.mk.injEq]
      change _ ∧ _ ∧ (c.outcome db A).2 = (c.muted.outcome db A).2 ↔ _
      rw [← hending]
      simp only [sessionEnd, Prod.mk.injEq, hsubmitted, and_true]
      rfl

/-- An exporter that cannot be built is the one telemetry failure that is always guarded
    against. -/
theorem main_of_unavailable {azureMonitor : String → Except Error TelemetryExporter}
    (h : ∀ connectionString, ∃ e, azureMonitor connectionString = .error e) (settings : Settings)
    (around : Surroundings) (db : Database) (A : DecimalContext) :
    main settings around (settings.buildTelemetryExporter azureMonitor) db A =
      main settings around nullExporter db A := by
  rw [Settings.buildTelemetryExporter, buildTelemetry_of_error h]

/-- Telemetry that raises when the latency of an order is recorded, once the order is out. -/
def raisingExporter : TelemetryExporter :=
  { nullExporter with
    recordOrderLatency := fun _ _ => .error (.external "ExportError" "no connection") }

/-- A market that stands still and rises on the ninth bar. -/
def risingSurroundings : Surroundings where
  random _ index := if index = 8 then { stillDraws with shock := 25 } else stillDraws
  clock := noon
  fetchClock := noon
  submitClock := noon
  ccxtSandboxExchange _ _ _ _ := .error (.exchangeError "unknown ccxt exchange")

/-- The default settings with short windows. -/
def shortSettings : Settings where
  smaFast := 2
  smaSlow := 4
  candleLimit := 9
  databaseUrl := some "postgresql://bot@localhost/bot"
  checked := by simp [SettingsFields.checks]
  sandboxed := rfl
  fast_lt_slow := by simp
  slow_lt_limit := by simp
  credentials := by simp [SettingsFields.HasCredentials]

/-- The order goes out either way, and is forgotten when its latency cannot be recorded. -/
theorem main_ne_main_raisingExporter :
    let told := main shortSettings risingSurroundings raisingExporter Database.empty .default
    let untold := main shortSettings risingSurroundings nullExporter Database.empty .default
    told.code.toOption = some exitFailed ∧ untold.code.toOption = some exitOk ∧
      told.submitted.length = 1 ∧ untold.submitted.length = 1 ∧
      told.tables.orders.length = 0 ∧ untold.tables.orders.length = 1 := by
  decide +kernel

end TradingBot
