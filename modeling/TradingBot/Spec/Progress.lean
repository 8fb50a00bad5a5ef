import TradingBot.Main
import TradingBot.Spec.AuditTrail
import TradingBot.Spec.PolicyLimits
import TradingBot.Spec.Replay
import TradingBot.Spec.SimulatorAcceptance
import TradingBot.Spec.StoredAverage

/-!
# When a job fails

A cycle raises wherever one of its validators does, and a job that fails leaves nothing behind.
On the rows of a run, and as long as the columns take what the cycle writes, there is one check
of a cycle's own that can fail, whatever came before: the equity the day opened with must be
positive. In particular a job of any accepted settings on a simulator that works exits with
success exactly on an account that is solvent in this sense. Decimals are exact here.

## Key results

- `sound_of_attempted`: no run stores a position that cannot be loaded
- `commits_iff_solvent`: a cycle that nothing outside gets in the way of commits exactly on a
  solvent account
- `main_exitOk_iff_solvent`: the same of the process
-/

namespace TradingBot

open FixedPoint

/-! ## Positions that can be loaded -/

/-- No position is of a negative quantity or average. -/
def Database.Sound (db : Database) : Prop :=
  ∀ symbol, 0 ≤ db.heldQuantity symbol ∧ 0 ≤ db.averagePrice symbol

namespace TradingCycle

variable {c : TradingCycle} {db db' : Database} {p : Prepared} {s : Settlement}
  {sent : List OrderIntent}

/-- A run that was alone leaves the average there was, or the one it settled at, rounded to the
    column. -/
theorem Commits.averagePrice (h : c.Commits db db' p s sent) :
    db'.averagePrice c.symbol = db.averagePrice c.symbol ∨
      db'.averagePrice c.symbol = roundTo 18 s.position.averagePrice := by
  have hwrite : s.write = none ∨ s.write = some (savePosition db s.position c.clock) := by
    cases h.settled with
    | held => exact .inl rfl
    | suppressed => exact .inl rfl
    | sent => exact .inr rfl
  rcases hwrite with hnone | hsaved
  · refine .inl ?_
    rw [Database.averagePrice, h.tables, Transaction.applyTo_positions,
      Transaction.positionsAfter, pending_position, hnone]
    rfl
  · exact .inr (averagePrice_of_saved h hsaved)

/-- A commit leaves positions that can be loaded. -/
theorem Commits.sound (h : c.Commits db db' p s sent) (hdb : db.Sound) : db'.Sound := by
  intro symbol
  by_cases hsymbol : symbol = c.symbol
  · subst hsymbol
    refine ⟨h.heldQuantity ▸ roundTo_nonneg s.position.quantity_nonneg, ?_⟩
    rcases h.averagePrice with hkept | hsaved
    · exact hkept ▸ (hdb c.symbol).2
    · exact hsaved ▸ roundTo_nonneg s.position.averagePrice_nonneg
  · rw [Database.heldQuantity, Database.averagePrice, h.positions_of_ne hsymbol]
    exact hdb symbol

end TradingCycle

/-- No run, on whatever venues, stores a position that cannot be loaded. -/
theorem sound_of_attempted {db : Database} {cycles : List TradingCycle}
    (hrun : Runs Attempted Database.empty cycles db) : db.Sound := by
  refine hrun.invariant (I := Database.Sound) (fun _ => ⟨le_rfl, le_rfl⟩) ?_
  rintro t c u - ht (hcommitted | rfl)
  · obtain ⟨p, s, sent, hcommits⟩ := hcommitted.commits
    exact hcommits.sound ht
  · exact ht

/-- The equity at which the account of a symbol counts as having opened the day. -/
def Database.openingAt (db : Database) (symbol : String) (initialCashQuote markPrice : ℚ)
    (now : Instant) : ℚ :=
  db.dayOpeningEquity symbol now
    (db.loadCash symbol initialCashQuote + db.heldQuantity symbol * markPrice)

/-- An account is loaded exactly when its opening equity is positive. -/
theorem Database.Sound.exists_loadAccountState_iff {db : Database} (h : db.Sound)
    (symbol : String) (initialCashQuote markPrice : ℚ) (now : Instant) :
    (∃ a, db.loadAccountState symbol initialCashQuote markPrice now = .ok a) ↔
      0 < db.openingAt symbol initialCashQuote markPrice now := by
  obtain ⟨hheld, haverage⟩ := h symbol
  -- the position loads, as what is stored is not negative
  obtain ⟨position, hposition⟩ : ∃ position, db.loadPosition symbol = .ok position := by
    unfold Database.heldQuantity at hheld
    unfold Database.averagePrice at haverage
    unfold Database.loadPosition
    cases hrow : db.positions symbol with
    | none => exact ⟨_, Position.validate_of_nonneg le_rfl le_rfl⟩
    | some record =>
      rw [hrow] at hheld haverage
      exact ⟨_, Position.validate_of_nonneg hheld haverage⟩
  have hquantity := (Database.loadPosition_ok hposition).2
  -- so loading fails on the opening equity alone
  have hload : db.loadAccountState symbol initialCashQuote markPrice now =
      AccountState.validate (db.loadCash symbol initialCashQuote) position
        (db.openingAt symbol initialCashQuote markPrice now) := by
    simp only [Database.loadAccountState, hposition, bind, Except.bind, equityIn_exact,
      Position.notionalAt, hquantity, Database.openingAt]
  rw [hload]
  constructor
  · rintro ⟨a, ha⟩
    exact (AccountState.validate_ok ha).2.2 ▸ a.dayOpeningEquity_pos
  · intro hpos
    have hchecks : AllHold (AccountState.checks
        (db.openingAt symbol initialCashQuote markPrice now)) := ⟨hpos, trivial⟩
    exact ⟨_, validated_of_holds hchecks⟩

/-! ## A cycle that nothing gets in the way of -/

namespace TradingCycle

/-- The columns take the rows that a cycle writes: the signal at its first query, the order and
    its fills at the query for the position, and the rest at the commit. -/
structure Stores (c : TradingCycle) (db : Database) : Prop where
  signal : ∀ snapshot signal,
    c.gateway.fetchSnapshot c.symbol c.timeframe c.candleLimit = .ok snapshot →
    c.strategy.evaluate snapshot = .ok signal →
    (recordSignal (buildCycleId snapshot) signal).storable = true
  order : ∀ p intent execution, c.Prepares db p → p.decision.intent = some intent →
    c.gateway.submit intent = .ok execution →
    let rows := recordExecution p.cycleId p.decision execution
    (rows.1.storable && rows.2.all FillRecord.storable) = true
  rest : ∀ p s sent, c.Prepares db p → c.Settles db p s sent → (c.pending p s).storable = true

/-- Nothing outside gets in the way of a cycle: market data is fetched and fresh, the strategy
    has an opinion on the symbol, the venue fills what it is asked for, or less, telemetry takes
    everything, and so do the columns. -/
structure Unhindered (c : TradingCycle) (db : Database) (snapshot : MarketSnapshot)
    (signal : Signal) : Prop where
  fetched : c.gateway.fetchSnapshot c.symbol c.timeframe c.candleLimit = .ok snapshot
  fresh : isStale snapshot.asOf c.timeframe c.clock maxSnapshotAgeFactor = .ok false
  evaluated : c.strategy.evaluate snapshot = .ok signal
  symbol : signal.symbol = c.symbol
  fills : ∀ intent : OrderIntent, intent.referencePrice = snapshot.lastPrice →
    ∃ execution fill, c.gateway.submit intent = .ok execution ∧ execution.fills = [fill] ∧
      fill.symbol = intent.symbol ∧ fill.side = intent.side ∧ fill.quantity ≤ intent.quantity
  latency : ∀ side, c.telemetry.recordOrderLatency c.symbol side = .ok ()
  takes : ∀ outcome equity opening, c.telemetry.Takes c.symbol outcome equity opening
  stores : c.Stores db

variable {c : TradingCycle} {db : Database} {p : Prepared} {snapshot : MarketSnapshot}
  {signal : Signal}

namespace Unhindered

variable (h : c.Unhindered db snapshot signal)

include h

/-- A cycle is prepared exactly where the opening equity of the day is positive. -/
theorem exists_prepares_iff (hdb : db.Sound) : (∃ p, c.Prepares db p) ↔
    0 < db.openingAt c.symbol c.initialCashQuote snapshot.lastPrice c.clock := by
  rw [← hdb.exists_loadAccountState_iff]
  constructor
  · rintro ⟨p, hp⟩
    have hsnapshot : p.snapshot = snapshot := Except.ok.inj (hp.fetched.symm.trans h.fetched)
    rw [← hsnapshot, ← hp.markPrice_eq]
    exact ⟨p.account, hp.loaded⟩
  · rintro ⟨account, haccount⟩
    -- the policy decides without an error
    obtain ⟨decision, hdecision, -⟩ := c.policy.decide_spec signal account snapshot.lastPrice
      c.killSwitch c.clock (buildCycleId snapshot)
    exact ⟨⟨snapshot, _, _, signal, account, decision⟩, h.fetched, h.fresh, rfl, rfl, h.evaluated,
      h.stores.signal snapshot signal h.fetched h.evaluated, haccount, hdecision⟩

/-- An order of the cycle is sent, filled and folded. -/
theorem exists_sends (hp : c.Prepares db p) {intent : OrderIntent}
    (hintent : p.decision.intent = some intent) : ∃ x, c.Sends p intent x := by
  have hsnapshot : p.snapshot = snapshot := Except.ok.inj (hp.fetched.symm.trans h.fetched)
  have hsignal : p.signal = signal :=
    Except.ok.inj (hp.evaluated.symm.trans (hsnapshot ▸ h.evaluated))
  obtain ⟨-, -, hsymbol, hreference⟩ := hp.intent_eq hintent
  have hprice : intent.referencePrice = snapshot.lastPrice := by
    rw [hreference, hp.markPrice_eq, hsnapshot]
  obtain ⟨execution, fill, hanswer, hfills, hfsymbol, hfside, hfquantity⟩ := h.fills intent hprice
  have hposition : fill.symbol = p.account.position.symbol := by
    rw [hfsymbol, hsymbol, hsignal, h.symbol, hp.account_eq.2.1]
  -- the policy sells no more than is held
  have hcovered : fill.side = .sell → fill.quantity ≤ p.account.position.quantity := by
    intro hsell
    obtain ⟨hshare, hall⟩ := (hp.withinLimits hintent).inventory (hfside ▸ hsell)
    exact hfquantity.trans (hshare.trans hall)
  obtain ⟨update, hupdate⟩ : ∃ update,
      applyExecution p.account.cashQuote p.account.position execution = .ok update :=
    applyExecution_single_ok hfills hposition hcovered
  let rows := recordExecution p.cycleId p.decision execution
  exact ⟨⟨execution, rows.1, rows.2, update.cashQuote, update.position⟩, hanswer, h.latency _, rfl,
    ⟨update.feesQuote, hupdate⟩, h.stores.order p intent execution hp hintent hanswer⟩

/-- A prepared cycle settles: the simulator answers, and the ledger covers the fill. -/
theorem exists_settles (hp : c.Prepares db p) : ∃ s sent, c.Settles db p s sent := by
  cases hintent : p.decision.intent with
  | none => exact ⟨_, _, .held hintent⟩
  | some intent =>
    cases hknown : db.alreadyExecuted intent.clientOrderId with
    | true => exact ⟨_, _, .suppressed hintent hknown⟩
    | false =>
      obtain ⟨x, hx⟩ := h.exists_sends hp hintent
      exact ⟨_, _, .sent hintent hknown hx⟩

/-- From rows whose positions can be loaded, a cycle commits exactly when the equity its day
    opened with is positive. -/
theorem exists_outcome_iff_of_sound (hdb : db.Sound) :
    (∃ r db', (c.outcome db).1 = .ok (r, db')) ↔
      0 < db.openingAt c.symbol c.initialCashQuote snapshot.lastPrice c.clock := by
  rw [← h.exists_prepares_iff hdb]
  constructor
  · rintro ⟨r, db', hok⟩
    have hrun : c.outcome db = (.ok (r, db'), (c.outcome db).2) := Prod.ext hok rfl
    obtain ⟨p, s, hcommits, -⟩ := outcome_ok hrun
    exact ⟨p, hcommits.prepared⟩
  · rintro ⟨p, hp⟩
    obtain ⟨s, sent, hs⟩ := h.exists_settles hp
    exact (exists_outcome_iff hp hs).mpr ⟨h.takes _ _ _, h.stores.rest p s sent hp hs⟩

end Unhindered

end TradingCycle

/-- From the rows that any run leaves, on whatever venues, a cycle that nothing outside gets in
    the way of commits exactly when the equity its day opened with is positive. -/
theorem commits_iff_solvent {db : Database} {cycles : List TradingCycle} {c : TradingCycle}
    {snapshot : MarketSnapshot} {signal : Signal}
    (hrun : Runs Attempted Database.empty cycles db) (h : c.Unhindered db snapshot signal) :
    (∃ r db', (c.outcome db).1 = .ok (r, db')) ↔
      0 < db.openingAt c.symbol c.initialCashQuote snapshot.lastPrice c.clock :=
  h.exists_outcome_iff_of_sound (sound_of_attempted hrun)

/-! ## The process -/

namespace Settings

open SimulatedExchange

variable (settings : Settings) (around : Surroundings)

/-- The limits of accepted settings are accepted. -/
private theorem exists_limits : ∃ limits, RiskLimits.validate settings.maxPositionQuote
    settings.maxDailyLossQuote settings.minOrderNotionalQuote = .ok limits := by
  have hloss : 0 < settings.maxDailyLossQuote :=
    settings.checked.of_mem (c := .gtZero "max_daily_loss_quote" settings.maxDailyLossQuote)
      (by simp [SettingsFields.checks])
  have hminimum : 0 < settings.minOrderNotionalQuote :=
    settings.checked.of_mem
      (c := .gtZero "min_order_notional_quote" settings.minOrderNotionalQuote)
      (by simp [SettingsFields.checks])
  have hchecks : AllHold (RiskLimits.checks settings.maxPositionQuote settings.maxDailyLossQuote
      settings.minOrderNotionalQuote) := ⟨settings.maxPositionQuote_pos, hloss, hminimum, trivial⟩
  exact ⟨_, validated_of_holds hchecks⟩

/-- The simulator of the settings works when the process asks it. -/
structure OnWorkingSimulator : Prop where
  simulated : settings.exchangeBackend = .simulated
  clock_in_range : InDatetimeRange around.fetchClock
  clock_le : around.clock ≤ around.fetchClock
  works : (settings.simulatedExchange around.random).Works around.fetchClock settings.symbol
    settings.timeframe settings.candleLimit

/-- The last price the simulator quotes. -/
def simulatedMark : ℚ :=
  let x := settings.simulatedExchange around.random
  roundPrice (x.walk (x.random (x.seedString settings.symbol settings.timeframe))
    settings.candleLimit)

variable {settings around}

/-- Nothing gets in the way of the cycle of accepted settings on a simulator that works, if the
    columns do not. -/
theorem OnWorkingSimulator.exists_unhindered (h : settings.OnWorkingSimulator around)
    {telemetry : TelemetryExporter} (ht : telemetry.Returns) {db : Database}
    (hstores : ∀ c, settings.buildCycle around telemetry.toTelemetry = .ok c → c.Stores db) :
    ∃ c snapshot signal, settings.buildCycle around telemetry.toTelemetry = .ok c ∧
      c.Unhindered db snapshot signal ∧ c.symbol = settings.symbol ∧
      c.initialCashQuote = settings.initialCashQuote ∧ c.clock = around.clock ∧
      snapshot.lastPrice = settings.simulatedMark around := by
  have hlimit : 0 < settings.candleLimit := Nat.zero_lt_of_lt settings.slow_lt_limit
  obtain ⟨snapshot, hfetch, hsubmit⟩ := h.works
  -- the bars that were fetched are fresh, and enough for the strategy
  obtain ⟨hsymbol, _, step, hwindow, -⟩ := fetchSnapshot_eq_ok hfetch
  have hparse := (window_ok hwindow).2.1
  have hstart := startsInRange_of_fetch hparse h.clock_in_range hlimit hfetch
  have hshape := fetchSnapshot_shape hparse h.clock_in_range hlimit hfetch
  obtain ⟨strategy, hcreate, hlength⟩ := hshape.exists_strategy settings
  obtain ⟨signal, hevaluate, -⟩ := SmaCrossoverStrategy.evaluate_ok hlength
  obtain ⟨limits, hlimits⟩ := settings.exists_limits
  let x := settings.simulatedExchange around.random
  have hgateway : settings.buildGateway around =
      .ok (x.gateway around.fetchClock around.submitClock) := by
    rw [buildGateway, h.simulated]
  have hbuild : settings.buildCycle around telemetry.toTelemetry =
      .ok ⟨x.gateway around.fetchClock around.submitClock, strategy.strategy, ⟨limits⟩,
        settings.buildKillSwitch, telemetry.toTelemetry, settings.symbol, settings.timeframe,
        settings.candleLimit, settings.initialCashQuote, around.clock⟩ := by
    simp only [buildCycle, hlimits, hgateway, hcreate, SmaCrossoverStrategy.strategyIn_exact, bind,
      Except.bind, pure, Except.pure]
  have hmark : snapshot.lastPrice = settings.simulatedMark around :=
    (Except.ok.inj (fetchSnapshot_lastPrice hlimit hfetch)).symm
  refine ⟨_, snapshot, signal, hbuild, ?_, rfl, rfl, rfl, hmark⟩
  refine ⟨hfetch, ?_, hevaluate, ?_, fun intent hprice => ?_, fun _ => ht.latency _ _,
    fun _ _ _ => ht.takes _ _ _ _, hstores _ hbuild⟩
  · exact hshape.not_stale hparse h.clock_in_range hlimit hstart h.clock_le
  · exact (SmaCrossoverStrategy.evaluate_symbol hevaluate).trans hsymbol
  · obtain ⟨execution, hexecution⟩ := hsubmit around.submitClock intent hprice trivial
    obtain ⟨-, -, fill, hfills, -, hfsymbol, hfside, hquantity, -⟩ := submit_ok hexecution
    exact ⟨execution, fill, hexecution, hfills, hfsymbol, hfside, hquantity.le⟩

end Settings

/-- A flush that returns keeps the exit code of the session. -/
private theorem main_of_returns {settings : Settings} {around : Surroundings}
    {telemetry : TelemetryExporter} {db : Database} {url : String} {sent : List OrderIntent}
    {outcome : Except Error (CycleResult × Database)} (ht : telemetry.Returns)
    (hurl : settings.databaseUrl = some url)
    (hsession : runSession settings around telemetry.toTelemetry db = (outcome, sent)) :
    main settings around telemetry db =
      ⟨exitCode telemetry outcome, tablesAfter db outcome, sent⟩ := by
  simp only [main, Settings.requireDatabaseUrl, hurl, hsession, ht.flush, bind, Except.bind]

/-- A cycle that fails ends the process with the code of a failure. -/
private theorem exitCode_error {telemetry : TelemetryExporter} (ht : telemetry.Returns)
    (e : Error) : exitCode telemetry (.error e) = .ok exitFailed := by
  simp only [exitCode, ht.error, bind, Except.bind, pure, Except.pure]

/-- From the rows that any run leaves, the job of accepted settings on a simulator that works, and
    whose rows the columns take, exits with success exactly when the equity its day opened with is
    positive. Otherwise it exits with failure, submits nothing and leaves the rows as they were. -/
theorem main_exitOk_iff_solvent {db : Database} {cycles : List TradingCycle}
    (hrun : Runs Attempted Database.empty cycles db) (settings : Settings) (around : Surroundings)
    (telemetry : TelemetryExporter) (url : String) (hurl : settings.databaseUrl = some url)
    (hworks : settings.OnWorkingSimulator around) (ht : telemetry.Returns)
    (hstores : ∀ c, settings.buildCycle around telemetry.toTelemetry = .ok c → c.Stores db) :
    let opening := db.openingAt settings.symbol settings.initialCashQuote
      (settings.simulatedMark around) around.clock
    ((main settings around telemetry db).code = .ok exitOk ↔ 0 < opening) ∧
      (opening ≤ 0 → main settings around telemetry db = ⟨.ok exitFailed, db, []⟩) := by
  intro opening
  obtain ⟨c, snapshot, signal, hbuild, hc, hsymbol, hinitial, hclock, hmark⟩ :=
    hworks.exists_unhindered ht hstores
  have hsession : runSession settings around telemetry.toTelemetry db = c.outcome db := by
    rw [runSession, hbuild]
    rfl
  have hopening : db.openingAt c.symbol c.initialCashQuote snapshot.lastPrice c.clock =
      opening := by
    rw [hsymbol, hinitial, hclock, hmark]
  have hcommits := commits_iff_solvent hrun hc
  have hprepares := hc.exists_prepares_iff (sound_of_attempted hrun)
  rw [hopening] at hcommits hprepares
  rcases hoc : c.outcome db with ⟨e | ⟨r, db'⟩, sent⟩
  · rw [main_of_returns ht hurl (hsession.trans hoc), exitCode_error ht]
    have hspent : ¬0 < opening := fun hpos => by
      obtain ⟨r, db', hok⟩ := hcommits.mpr hpos
      rw [hoc] at hok
      cases hok
    -- nothing was prepared, so nothing was sent
    have hnone : (c.outcome db).2 = [] := TradingCycle.outcome_sent_of_known fun p _ hp =>
      absurd (hprepares.mp ⟨p, hp⟩) hspent
    rw [hoc] at hnone
    refine ⟨iff_of_false (by simp [exitOk, exitFailed]) hspent, fun _ => ?_⟩
    exact congrArg (Ending.mk _ db) hnone
  · rw [main_of_returns ht hurl (hsession.trans hoc)]
    have hpos : 0 < opening := hcommits.mp ⟨r, db', by rw [hoc]⟩
    exact ⟨iff_of_true rfl hpos, fun hspent => absurd hpos hspent.not_gt⟩

/-- An order fills where its price does not round to zero. -/
private theorem exists_submit {x : SimulatedExchange} (hfee : 0 ≤ x.feeBps) (clock : Instant)
    {intent : OrderIntent} (hprice : 0 < x.fillPrice intent.side intent.referencePrice) :
    ∃ e, x.submit clock intent = .ok e := by
  set price := x.fillPrice intent.side intent.referencePrice with hslipped
  have hfill : x.fillPriceIn .exact intent.side intent.referencePrice = .ok price := by
    rw [hslipped]
    cases intent.side <;> rfl
  have hcharged : x.feeIn .exact intent.quantity price = .ok (x.fee intent.quantity price) := rfl
  have hquantity := intent.quantity_pos
  have hnonneg : 0 ≤ x.fee intent.quantity price :=
    roundTo_nonneg (div_nonneg (mul_nonneg (mul_pos hquantity hprice).le hfee) bps_pos.le)
  have hchecks : AllHold (Fill.checks intent.quantity price (x.fee intent.quantity price)) :=
    ⟨hquantity, hprice, hnonneg, trivial⟩
  simp [SimulatedExchange.submit, hfill, hcharged, Fill.validate, validated_of_holds hchecks, bind,
    Except.bind, pure, Except.pure]

open SimulatedExchange in
/-- The default settings with short windows run on a simulator that works. -/
private theorem shortSettings_works : shortSettings.OnWorkingSimulator risingSurroundings where
  simulated := rfl
  clock_in_range := by unfold InDatetimeRange; decide
  clock_le := le_rfl
  works := by
    let x := shortSettings.simulatedExchange risingSurroundings.random
    have hfetched : (x.fetchSnapshot noon "BTC/USDT" "15m" 9).toOption.isSome = true := by
      decide +kernel
    obtain ⟨s, hs⟩ : ∃ s, x.fetchSnapshot noon "BTC/USDT" "15m" 9 = .ok s := by
      cases hfetch : x.fetchSnapshot noon "BTC/USDT" "15m" 9 with
      | error e => simp [hfetch, Except.toOption] at hfetched
      | ok s => exact ⟨s, rfl⟩
    -- the walk has risen to this price
    have hlast : s.lastPrice = 33000 := by
      have hround := fetchSnapshot_lastPrice (by decide) hs
      exact (Except.ok.inj hround).symm.trans (by decide +kernel)
    refine ⟨s, hs, fun submitClock intent hprice _ =>
      exists_submit shortSettings.feeBps_nonneg submitClock ?_⟩
    rw [hprice, hlast]
    cases intent.side <;> decide +kernel

/-- The rows of the first job of all are short and small. -/
private theorem shortSettings_stores (c : TradingCycle)
    (hbuild : shortSettings.buildCycle risingSurroundings nullExporter.toTelemetry = .ok c) :
    c.Stores Database.empty := by
  -- one test for each of the queries and one for the commit
  have hsignal := Except.of_all (p := fun c : TradingCycle =>
    (c.gateway.fetchSnapshot c.symbol c.timeframe c.candleLimit).toOption.all fun snapshot =>
      (c.strategy.evaluate snapshot).toOption.all fun signal =>
        (recordSignal (buildCycleId snapshot) signal).storable) (by decide +kernel) hbuild
  have horder := Except.of_all (p := fun c : TradingCycle =>
    (c.prepare Database.empty).toOption.all fun p => p.decision.intent.all fun intent =>
      (c.gateway.submit intent).toOption.all fun execution =>
        let rows := recordExecution p.cycleId p.decision execution
        rows.1.storable && rows.2.all FillRecord.storable) (by decide +kernel) hbuild
  have hrest := Except.of_all (p := fun c : TradingCycle =>
    (c.prepare Database.empty).toOption.all fun p =>
      ((c.execute Database.empty p).eval []).1.toOption.all fun s =>
        (c.pending p s).storable) (by decide +kernel) hbuild
  refine ⟨fun snapshot signal hfetch hevaluate => ?_,
    fun p intent execution hp hintent hanswer => ?_, fun p s sent hp hs => ?_⟩
  · have hevaluated := Except.of_all hsignal hfetch
    have hstored := Except.of_all hevaluated hevaluate
    exact hstored
  · have hintents := Except.of_all horder (TradingCycle.prepare_ok.mpr hp)
    rw [hintent, Option.all_some] at hintents
    have hstored := Except.of_all hintents hanswer
    exact hstored
  · have hsettled := Except.of_all hrest (TradingCycle.prepare_ok.mpr hp)
    have hstored := Except.of_all hsettled (congrArg Prod.fst (TradingCycle.execute_ok.mpr hs))
    exact hstored

/-- The first job of all succeeds. -/
theorem main_exitOk_iff_solvent_first :
    (main shortSettings risingSurroundings nullExporter Database.empty).code = .ok exitOk :=
  (main_exitOk_iff_solvent .nil shortSettings risingSurroundings nullExporter
    "postgresql://bot@localhost/bot" rfl shortSettings_works
    ⟨fun _ _ _ => rfl, fun _ _ => rfl, fun _ _ => rfl, fun _ => rfl, fun _ => rfl, rfl⟩
    shortSettings_stores).1.mpr (by decide +kernel)

end TradingBot
