import TradingBot.Cycle
import TradingBot.ForMathlib.Except
import TradingBot.ForMathlib.Runs

/-!
# What one job execution can do

Inversion lemmas for the cycle. `outcome_ok` says everything a committed cycle did: it was
prepared, it settled in one of three ways (`Settles`), and the rows are those of its
transaction. Later results split on the three ways and never unfold the cycle. The lemmas hold
in any decimal context, up to those that speak of what the engine approves.
-/

namespace TradingBot

namespace TradingCycle

/-- The outcome of a job execution started on some rows, and the intents it submitted. -/
def outcome (c : TradingCycle) (db : Database) (A : DecimalContext := .exact) :
    Except Error (CycleResult × Database) × List OrderIntent :=
  (c.job db A).eval []

variable {A : DecimalContext}

/-- What `prepare` established. -/
structure Prepares (c : TradingCycle) (db : Database) (p : Prepared)
    (A : DecimalContext := .exact) : Prop where
  fetched : c.gateway.fetchSnapshot c.symbol c.timeframe c.candleLimit = .ok p.snapshot
  fresh : isStale p.snapshot.asOf c.timeframe c.clock maxSnapshotAgeFactor = .ok false
  cycleId_eq : p.cycleId = buildCycleId p.snapshot
  markPrice_eq : p.markPrice = p.snapshot.lastPrice
  evaluated : c.strategy.evaluate p.snapshot = .ok p.signal
  stored : (recordSignal p.cycleId p.signal).storable = true
  loaded : db.loadAccountState c.symbol c.initialCashQuote p.markPrice c.clock A = .ok p.account
  decided : c.policy.decideIn A p.signal p.account p.markPrice c.killSwitch c.clock p.cycleId =
    .ok p.decision

/-- `prepare` returns exactly what the relation lists: the snapshot, the signal, the account and
    the decision, none of which raised. -/
theorem prepare_ok {c : TradingCycle} {db : Database} {p : Prepared} :
    c.prepare db A = .ok p ↔ c.Prepares db p A := by
  constructor
  · intro h
    unfold prepare at h
    obtain ⟨snapshot, hfetch, h⟩ := Except.bind_eq_ok.mp h
    obtain ⟨stale, hstale, h⟩ := Except.bind_eq_ok.mp h
    cases stale with
    | true =>
      -- stale data is not acted on
      simp [bind, Except.bind] at h
    | false =>
      obtain ⟨signal, hsignal, h⟩ := Except.bind_eq_ok.mp h
      obtain ⟨_, hstored, h⟩ := Except.bind_eq_ok.mp h
      obtain ⟨account, haccount, h⟩ := Except.bind_eq_ok.mp h
      obtain ⟨decision, hdecision, h⟩ := Except.bind_eq_ok.mp h
      cases h
      exact ⟨hfetch, hstale, rfl, rfl, hsignal, autoflush_ok_iff.mp hstored, haccount, hdecision⟩
  · rintro ⟨hfetch, hstale, hid, hmark, hsignal, hstored, haccount, hdecision⟩
    cases p
    dsimp only at *
    subst hid hmark
    simp [prepare, hfetch, hstale, hsignal, autoflush_ok_iff.mpr hstored, haccount, hdecision, bind,
      Except.bind, pure, Except.pure]

namespace Prepares

variable {c : TradingCycle} {db : Database} {p : Prepared}

/-- A cycle prepares in at most one way. -/
theorem unique {q : Prepared} (hp : c.Prepares db p A) (hq : c.Prepares db q A) : p = q :=
  Except.ok.inj ((prepare_ok.mpr hp).symm.trans (prepare_ok.mpr hq))

/-- The loaded account is the one the tables carry. -/
theorem loaded_eq (h : c.Prepares db p A) :
    p.account.cashQuote = db.loadCash c.symbol c.initialCashQuote ∧
      p.account.position.symbol = c.symbol ∧
      p.account.position.quantity = db.heldQuantity c.symbol ∧
      p.account.dayOpeningEquity = db.dayOpeningEquity c.symbol c.clock
        (equityIn A p.account.cashQuote p.account.position p.markPrice) :=
  Database.loadAccountState_ok h.loaded

/-- With exact arithmetic the fallback of the opening is the equity of the account. -/
theorem account_eq (h : c.Prepares db p) :
    p.account.cashQuote = db.loadCash c.symbol c.initialCashQuote ∧
      p.account.position.symbol = c.symbol ∧
      p.account.position.quantity = db.heldQuantity c.symbol ∧
      p.account.dayOpeningEquity =
        db.dayOpeningEquity c.symbol c.clock (p.account.equityAt p.markPrice) :=
  h.loaded_eq

/-- The mark price is the close of the last candle, so it is positive. -/
theorem markPrice_pos (h : c.Prepares db p A) : 0 < p.markPrice :=
  h.markPrice_eq ▸ p.snapshot.lastPrice_pos

/-- The decision renders what the engine approves for the loaded account. -/
theorem renders (h : c.Prepares db p) :
    PolicyEngine.Renders p.decision p.signal p.markPrice c.clock p.cycleId
      (c.policy.approves p.signal p.account p.markPrice c.killSwitch) := by
  obtain ⟨d, hd, hrenders⟩ := c.policy.decide_spec p.signal p.account p.markPrice c.killSwitch
    c.clock p.cycleId
  cases hd.symm.trans h.decided
  exact hrenders

/-- The record of the decision stops at its first failed check. -/
theorem recorded (h : c.Prepares db p) : PolicyEngine.Recorded p.decision := by
  obtain ⟨d, hd, -, hrecorded⟩ := c.policy.decide_recorded p.signal p.account p.markPrice
    c.killSwitch c.clock p.cycleId
  cases hd.symm.trans h.decided
  exact hrecorded

/-- An intent carries the side and size that were approved, under the id of its bar. -/
theorem intent_eq (h : c.Prepares db p) {i : OrderIntent} (hi : p.decision.intent = some i) :
    c.policy.approves p.signal p.account p.markPrice c.killSwitch = some (i.side, i.quantity) ∧
      i.clientOrderId = p.cycleId ++ "-" ++ i.side.value ∧ i.symbol = p.signal.symbol ∧
      i.referencePrice = p.markPrice :=
  h.renders.intent_eq hi

/-- What is approved is submitted. -/
theorem exists_intent (h : c.Prepares db p) {side : OrderSide} {q : ℚ}
    (happroved : c.policy.approves p.signal p.account p.markPrice c.killSwitch =
      some (side, q)) :
    ∃ i, p.decision.intent = some i ∧ i.side = side ∧ i.quantity = q := by
  have hrenders := h.renders
  rw [happroved] at hrenders
  obtain ⟨-, i, hi, -, -, hside, hqty, -, -⟩ := hrenders
  exact ⟨i, hi, hside, hqty⟩

end Prepares

/-! ## Sending an order -/

/-- What `send` established. -/
structure Sends (c : TradingCycle) (p : Prepared) (intent : OrderIntent) (x : Executed)
    (A : DecimalContext := .exact) : Prop where
  answered : c.gateway.submit intent = .ok x.execution
  measured : c.telemetry.recordOrderLatency c.symbol intent.side = .ok ()
  recorded : recordExecution p.cycleId p.decision x.execution = (x.order, x.fills)
  foldedIn : ∃ fees, applyExecutionIn A p.account.cashQuote p.account.position x.execution =
    .ok ⟨x.cash, x.position, fees⟩
  stored : (x.order.storable && x.fills.all FillRecord.storable) = true

/-- With exact arithmetic the fold is that of the ledger. -/
theorem Sends.folded {c : TradingCycle} {p : Prepared} {intent : OrderIntent} {x : Executed}
    (h : c.Sends p intent x) :
    ∃ fees, applyExecution p.account.cashQuote p.account.position x.execution =
      .ok ⟨x.cash, x.position, fees⟩ := h.foldedIn

/-- What `send` does once the order is out. -/
def afterSubmit (c : TradingCycle) (p : Prepared) (intent : OrderIntent)
    (A : DecimalContext := .exact) : Except Error Executed := do
  let execution ← c.gateway.submit intent
  c.telemetry.recordOrderLatency c.symbol intent.side
  let update ← applyExecutionIn A p.account.cashQuote p.account.position execution
  let rows := recordExecution p.cycleId p.decision execution
  autoflush (rows.1.storable && rows.2.all FillRecord.storable)
  return ⟨execution, rows.1, rows.2, update.cashQuote, update.position⟩

/-- The order goes out first: whatever happens next, it was sent. -/
theorem send_eval (c : TradingCycle) (p : Prepared) (intent : OrderIntent)
    (sent : List OrderIntent) :
    (c.send p intent A).eval sent = (c.afterSubmit p intent A, sent ++ [intent]) := by
  unfold send submit afterSubmit
  simp only [bind_assoc, ExceptT.eval_bind, ExceptT.eval_modify, ExceptT.eval_liftExcept]
  -- each of the calls that follow raises or not
  cases c.gateway.submit intent with
  | error e => rfl
  | ok execution =>
    cases c.telemetry.recordOrderLatency c.symbol intent.side with
    | error e => rfl
    | ok _ =>
      cases hfold : applyExecutionIn A p.account.cashQuote p.account.position execution with
      | error e => simp only [hfold, bind, Except.bind]
      | ok update =>
        simp only [hfold, bind, Except.bind]
        cases autoflush ((recordExecution p.cycleId p.decision execution).1.storable &&
            (recordExecution p.cycleId p.decision execution).2.all FillRecord.storable) <;> rfl

/-- What follows the answer of the gateway returns exactly the values that the relation lists. -/
theorem afterSubmit_ok {c : TradingCycle} {p : Prepared} {intent : OrderIntent}
    {x : Executed} : c.afterSubmit p intent A = .ok x ↔ c.Sends p intent x A := by
  constructor
  · intro h
    unfold afterSubmit at h
    obtain ⟨execution, hanswer, h⟩ := Except.bind_eq_ok.mp h
    obtain ⟨_, hlatency, h⟩ := Except.bind_eq_ok.mp h
    obtain ⟨update, hfold, h⟩ := Except.bind_eq_ok.mp h
    obtain ⟨_, hstored, h⟩ := Except.bind_eq_ok.mp h
    cases h
    exact ⟨hanswer, hlatency, rfl, ⟨update.feesQuote, hfold⟩, autoflush_ok_iff.mp hstored⟩
  · rintro ⟨hanswer, hlatency, hrecorded, ⟨fees, hfold⟩, hstored⟩
    cases x
    dsimp only at *
    simp [afterSubmit, hanswer, hlatency, hrecorded, hfold, autoflush_ok_iff.mpr hstored, bind,
      Except.bind, pure, Except.pure]

/-- A submission that returns has sent its intent, and nothing else, to the gateway. -/
theorem send_ok {c : TradingCycle} {p : Prepared} {intent : OrderIntent} {x : Executed}
    {sent sent' : List OrderIntent} :
    (c.send p intent A).eval sent = (.ok x, sent') ↔
      c.Sends p intent x A ∧ sent' = sent ++ [intent] := by
  rw [send_eval, Prod.mk.injEq, afterSubmit_ok, eq_comm (a := sent')]

/-- What an answer that is folded comes to. -/
def executedAs (p : Prepared) (execution : OrderExecution) (update : LedgerUpdate) : Executed where
  execution := execution
  order := (recordExecution p.cycleId p.decision execution).1
  fills := (recordExecution p.cycleId p.decision execution).2
  cash := update.cashQuote
  position := update.position

/-- The columns take the order of an execution and its fills. -/
def StoresOrder (p : Prepared) (execution : OrderExecution) : Prop :=
  ((recordExecution p.cycleId p.decision execution).1.storable &&
    (recordExecution p.cycleId p.decision execution).2.all FillRecord.storable) = true

/-- A submission whose answer is folded and stored is one whose parts are the execution, its fold
    and its rows. -/
theorem sends_executedAs {p : Prepared} {intent : OrderIntent} {execution : OrderExecution}
    {update : LedgerUpdate} (c : TradingCycle)
    (hanswer : c.gateway.submit intent = .ok execution)
    (hlatency : c.telemetry.recordOrderLatency c.symbol intent.side = .ok ())
    (hfold : applyExecutionIn A p.account.cashQuote p.account.position execution = .ok update)
    (hstored : StoresOrder p execution) :
    c.Sends p intent (executedAs p execution update) A :=
  ⟨hanswer, hlatency, rfl, ⟨update.feesQuote, hfold⟩, hstored⟩

/-! ## Acting on the decision -/

/-- The three ways a decision settles, with the intents that were sent: it holds, its
    order is known already, or its order is sent and answered. -/
inductive Settles (c : TradingCycle) (db : Database) (p : Prepared) :
    Settlement → List OrderIntent → (A : DecimalContext := .exact) → Prop
  | held {A : DecimalContext} : p.decision.intent = none →
      Settles c db p (.unchanged p.account false) [] A
  | suppressed {A : DecimalContext} {intent : OrderIntent} : p.decision.intent = some intent →
      db.alreadyExecuted intent.clientOrderId = true →
      Settles c db p (.unchanged p.account true) [] A
  | sent {A : DecimalContext} {intent : OrderIntent} {x : Executed} :
      p.decision.intent = some intent → db.alreadyExecuted intent.clientOrderId = false →
      c.Sends p intent x A → Settles c db p (c.settle db x) [intent] A

/-- The order row of a sent order has the id, side and quantity of its intent, and the
    cycle's id. -/
theorem Sends.order_eq {c : TradingCycle} {p : Prepared} {intent : OrderIntent} {x : Executed}
    (h : c.Sends p intent x A) : x.order.clientOrderId = intent.clientOrderId ∧
      x.order.cycleId = p.cycleId ∧ x.order.side = intent.side ∧
      x.order.quantity = .ofRat 18 intent.quantity := by
  have hintent := c.gateway.submit_intent _ _ h.answered
  have hrow : x.order = (recordExecution p.cycleId p.decision x.execution).1 :=
    (congrArg Prod.fst h.recorded).symm
  simp [hrow, recordExecution, hintent]

/-- Once an order that was answered with one fill is sent, the equity is what it was before,
    changed by the fill. -/
theorem Sends.equity_eq {c : TradingCycle} {p : Prepared} {intent : OrderIntent} {x : Executed}
    {fill : Fill} (h : c.Sends p intent x) (hfills : x.execution.fills = [fill]) :
    x.cash + x.position.notionalAt p.markPrice =
      p.account.equityAt p.markPrice + fill.cashFlow + fill.signedQuantity * p.markPrice := by
  obtain ⟨fees, hfold⟩ := h.folded
  obtain ⟨hcash, -, hqty, -⟩ := applyExecution_ok hfold
  rw [hfills, List.map_singleton, List.sum_singleton] at hcash hqty
  dsimp only at hcash hqty
  rw [Position.notionalAt, hcash, hqty, AccountState.equityAt, Position.notionalAt]
  ring

/-- A settlement sends nothing and records no order, having nothing new to submit, or it
    sends one new order and records it. -/
theorem Settles.order_cases {c : TradingCycle} {db : Database} {p : Prepared} {s : Settlement}
    {sent : List OrderIntent} (h : c.Settles db p s sent A) :
    (s.order = none ∧ sent = [] ∧
        ∀ i, p.decision.intent = some i → db.alreadyExecuted i.clientOrderId = true) ∨
      ∃ i row, p.decision.intent = some i ∧ db.alreadyExecuted i.clientOrderId = false ∧
        sent = [i] ∧ s.order = some row ∧ row.clientOrderId = i.clientOrderId ∧
        row.cycleId = p.cycleId ∧ row.side = i.side ∧ row.quantity = .ofRat 18 i.quantity := by
  cases h with
  | held hnone => exact .inl ⟨rfl, rfl, by simp [hnone]⟩
  | @suppressed _ intent hintent hknown =>
    refine .inl ⟨rfl, rfl, fun i hi => ?_⟩
    cases hintent.symm.trans hi
    exact hknown
  | @sent _ intent x hintent hnew hsends =>
    exact .inr ⟨intent, x.order, hintent, hnew, rfl, rfl, hsends.order_eq⟩

/-- `execute` returns exactly the settlements that the relation lists, with the intents it sent.
    -/
theorem execute_ok {c : TradingCycle} {db : Database} {p : Prepared} {s : Settlement}
    {sent : List OrderIntent} :
    (c.execute db p A).eval [] = (.ok s, sent) ↔ c.Settles db p s sent A := by
  constructor
  · intro h
    -- the three branches of the source: no intent, a known order, a new one
    unfold execute at h
    cases houtcome : p.decision.outcome with
    | hold =>
      simp only [houtcome, ExceptT.eval_pure] at h
      cases h
      exact .held (PolicyDecision.outcome_eq_hold_iff.mp houtcome)
    | submit =>
      obtain ⟨intent, hintent⟩ := PolicyDecision.exists_intent houtcome
      simp only [houtcome, hintent] at h
      split at h
      next hknown =>
        cases h
        exact .suppressed hintent hknown
      next hnew =>
        obtain ⟨x, sent', hsend, hsettle⟩ := ExceptT.eval_bind_eq_ok.mp h
        obtain ⟨hsends, rfl⟩ := send_ok.mp hsend
        cases hsettle
        exact .sent hintent (by simpa using hnew) hsends
  · intro h
    unfold execute
    cases h with
    -- a submission without an intent is ruled out by the type of a decision
    | held hnone =>
      cases houtcome : p.decision.outcome with
      | hold => simp only [ExceptT.eval_pure]
      | submit =>
        obtain ⟨i, hi⟩ := PolicyDecision.exists_intent houtcome
        exact nomatch hnone.symm.trans hi
    | @suppressed _ intent hintent hknown =>
      have houtcome := p.decision.intent_matches.mpr (by simp [hintent])
      simp only [houtcome, hintent, hknown, if_true, ExceptT.eval_pure]
    | @sent _ intent x hintent hnew hsends =>
      have houtcome := p.decision.intent_matches.mpr (by simp [hintent])
      simp only [houtcome, hintent, hnew, Bool.false_eq_true, if_false]
      exact ExceptT.eval_bind_eq_ok.mpr ⟨x, [intent], send_ok.mpr ⟨hsends, rfl⟩, rfl⟩

/-- Whatever comes of it, acting on a decision sends nothing, having nothing new to submit,
    or it sends its order. -/
theorem execute_sent (c : TradingCycle) (db : Database) (p : Prepared) :
    ((∀ i, p.decision.intent = some i → db.alreadyExecuted i.clientOrderId = true) ∧
        ((c.execute db p A).eval []).2 = []) ∨
      ∃ intent, p.decision.intent = some intent ∧
        db.alreadyExecuted intent.clientOrderId = false ∧
        ((c.execute db p A).eval []).2 = [intent] := by
  unfold execute
  cases houtcome : p.decision.outcome with
  | hold =>
    have hnone := PolicyDecision.outcome_eq_hold_iff.mp houtcome
    exact .inl ⟨by simp [hnone], rfl⟩
  | submit =>
    obtain ⟨intent, hintent⟩ := PolicyDecision.exists_intent houtcome
    simp only [hintent]
    cases hknown : db.alreadyExecuted intent.clientOrderId with
    | true => exact .inl ⟨by simpa using hknown, rfl⟩
    | false =>
      refine .inr ⟨intent, rfl, hknown, ?_⟩
      simp only [Bool.false_eq_true, if_false, ExceptT.eval_bind, send_eval]
      -- sent is sent, whatever the answer leads to
      cases c.afterSubmit p intent A <;> rfl

/-! ## Recording and committing -/

/-- The equity row of a cycle. -/
def snapshotRow (c : TradingCycle) (p : Prepared) (s : Settlement)
    (A : DecimalContext := .exact) : EquitySnapshotRecord where
  cycleId := p.cycleId
  symbol := c.symbol
  markPrice := .ofRat 18 p.markPrice
  cashQuote := .ofRat 18 s.cash
  positionQuantity := .ofRat 18 s.position.quantity
  equityQuote := .ofRat 18 (equityIn A s.cash s.position p.markPrice)
  dayOpeningEquity := .ofRat 18 p.account.dayOpeningEquity
  takenAt := c.clock

/-- The rows a cycle leaves pending. -/
def pending (c : TradingCycle) (p : Prepared) (s : Settlement)
    (A : DecimalContext := .exact) : Transaction where
  signal := recordSignal p.cycleId p.signal
  order := s.order
  fills := s.fills
  position := s.write
  equity := c.snapshotRow p s A

section Pending

variable (c : TradingCycle) (p : Prepared) (s : Settlement)

/-- The session holds the signal row. -/
@[simp] theorem pending_signal :
    (c.pending p s A).signal = recordSignal p.cycleId p.signal := rfl

/-- The session holds the order row of the settlement, if there is one. -/
@[simp] theorem pending_order : (c.pending p s A).order = s.order := rfl

/-- The session holds the fill rows of the settlement. -/
@[simp] theorem pending_fills : (c.pending p s A).fills = s.fills := rfl

/-- The session holds the position row of the settlement, if there is one. -/
@[simp] theorem pending_position : (c.pending p s A).position = s.write := rfl

/-- The session holds the equity snapshot. -/
@[simp] theorem pending_equity : (c.pending p s A).equity = c.snapshotRow p s A := rfl

/-- The equity snapshot is of the symbol of the cycle. -/
@[simp] theorem snapshotRow_symbol : (c.snapshotRow p s A).symbol = c.symbol := rfl

/-- The equity snapshot is taken at the clock of the cycle. -/
@[simp] theorem snapshotRow_takenAt : (c.snapshotRow p s A).takenAt = c.clock := rfl

end Pending

/-- A cycle concludes with a valid equity, which it reports and records. -/
private theorem exists_equity {c : TradingCycle} {p : Prepared} {s : Settlement}
    {r : CycleResult} {tx : Transaction} (h : c.conclude p s A = .ok (r, tx)) :
    ∃ equity, EquitySnapshot.validate c.clock c.symbol p.markPrice s.cash s.position.quantity
        (equityIn A s.cash s.position p.markPrice) p.account.dayOpeningEquity = .ok equity ∧
      r = ⟨p.cycleId, p.signal, p.decision, s.execution, equity, s.duplicateSuppressed⟩ ∧
      tx = ⟨recordSignal p.cycleId p.signal, s.order, s.fills, s.write,
        recordEquitySnapshot p.cycleId equity⟩ := by
  unfold conclude at h
  obtain ⟨equity, hequity, h⟩ := Except.bind_eq_ok.mp h
  -- the telemetry is told, and does not raise
  obtain ⟨_, -, h⟩ := Except.bind_eq_ok.mp h
  obtain ⟨_, -, h⟩ := Except.bind_eq_ok.mp h
  obtain ⟨_, -, h⟩ := Except.bind_eq_ok.mp h
  cases h
  exact ⟨equity, hequity, rfl, rfl⟩

/-- What a cycle returns once it has settled: the rows of the session, with the decision and the
    execution they are about. -/
theorem conclude_ok {c : TradingCycle} {p : Prepared} {s : Settlement} {r : CycleResult}
    {tx : Transaction} (h : c.conclude p s A = .ok (r, tx)) :
    tx = c.pending p s A ∧ r.decision = p.decision ∧ r.execution = s.execution ∧
      r.duplicateSuppressed = s.duplicateSuppressed := by
  obtain ⟨equity, hequity, rfl, rfl⟩ := exists_equity h
  obtain ⟨htaken, hsym, hmark, hcash, hqty, hequity, hday⟩ := EquitySnapshot.validate_ok hequity
  refine ⟨?_, rfl, rfl, rfl⟩
  simp only [pending, snapshotRow, recordEquitySnapshot, htaken, hsym, hmark, hcash, hqty,
    hequity, hday]

/-- The result of a cycle reports what was decided and what was recorded. -/
theorem conclude_result {c : TradingCycle} {p : Prepared} {s : Settlement} {r : CycleResult}
    {tx : Transaction} (h : c.conclude p s A = .ok (r, tx)) :
    r.cycleId = p.cycleId ∧ r.signal = p.signal ∧
      tx.equity = recordEquitySnapshot r.cycleId r.equity ∧ r.equity.cashQuote = s.cash ∧
      r.equity.positionQuantity = s.position.quantity := by
  obtain ⟨equity, hequity, rfl, rfl⟩ := exists_equity h
  obtain ⟨-, -, -, hcash, hqty, -, -⟩ := EquitySnapshot.validate_ok hequity
  exact ⟨rfl, rfl, rfl, hcash, hqty⟩

/-- The inversion of a run of the cycle: it prepared, settled, and concluded. -/
theorem run_ok {c : TradingCycle} {db : Database} {r : CycleResult} {tx : Transaction}
    {sent : List OrderIntent} :
    (c.run db A).eval [] = (.ok (r, tx), sent) ↔
      ∃ p s, c.Prepares db p A ∧ c.Settles db p s sent A ∧ c.conclude p s A = .ok (r, tx) := by
  unfold run
  constructor
  · intro h
    -- neither the beginning nor the end of a run sends anything
    obtain ⟨p, _, hprepare, h⟩ := ExceptT.eval_bind_eq_ok.mp h
    obtain ⟨s, _, hexecute, hconclude⟩ := ExceptT.eval_bind_eq_ok.mp h
    simp only [ExceptT.eval_liftExcept, Prod.mk.injEq] at hprepare hconclude
    obtain ⟨hprepare, rfl⟩ := hprepare
    obtain ⟨hconclude, rfl⟩ := hconclude
    exact ⟨p, s, prepare_ok.mp hprepare, execute_ok.mp hexecute, hconclude⟩
  · rintro ⟨p, s, hp, hs, hconclude⟩
    refine ExceptT.eval_bind_eq_ok.mpr ⟨p, [], ?_, ?_⟩
    · rw [ExceptT.eval_liftExcept, prepare_ok.mpr hp]
    · refine ExceptT.eval_bind_eq_ok.mpr ⟨s, sent, execute_ok.mpr hs, ?_⟩
      rw [ExceptT.eval_liftExcept, hconclude]

/-- What a run that committed did. -/
structure Commits (c : TradingCycle) (db db' : Database) (p : Prepared) (s : Settlement)
    (sent : List OrderIntent) (A : DecimalContext := .exact) : Prop where
  prepared : c.Prepares db p A
  settled : c.Settles db p s sent A
  stored : (c.pending p s A).storable = true
  fits : (c.pending p s A).Fits db
  tables : db' = (c.pending p s A).applyTo db

/-- The snapshot of a run with the newest clock becomes the latest. -/
theorem Commits.latestSnapshotFor {c : TradingCycle} {db db' : Database} {p : Prepared}
    {s : Settlement} {sent : List OrderIntent} (h : c.Commits db db' p s sent A)
    (hnew : ∀ r ∈ db.equitySnapshots, r.takenAt < c.clock) :
    db'.latestSnapshotFor c.symbol = some (c.snapshotRow p s A) := by
  have happend : db'.equitySnapshots = db.equitySnapshots ++ [c.snapshotRow p s A] := by
    rw [h.tables, Transaction.applyTo_equitySnapshots, pending_equity]
  exact Database.latestSnapshotFor_append happend rfl
    fun r hr => hnew r (List.mem_filter.mp hr).1

/-- A job ends well when its cycle does and the session commits. -/
theorem outcome_eq_ok {c : TradingCycle} {db db' : Database} {r : CycleResult}
    {sent : List OrderIntent} :
    c.outcome db A = (.ok (r, db'), sent) ↔
      ∃ tx, (c.run db A).eval [] = (.ok (r, tx), sent) ∧ tx.commitSession db = .ok db' := by
  unfold outcome job
  constructor
  · intro h
    -- the commit sends nothing
    obtain ⟨⟨r', tx⟩, _, hrun, h⟩ := ExceptT.eval_bind_eq_ok.mp h
    obtain ⟨db'', _, hcommit, h⟩ := ExceptT.eval_bind_eq_ok.mp h
    simp only [ExceptT.eval_liftExcept, ExceptT.eval_pure, Prod.mk.injEq, Except.ok.injEq]
      at hcommit h
    obtain ⟨⟨rfl, rfl⟩, rfl⟩ := h
    obtain ⟨hcommit, rfl⟩ := hcommit
    exact ⟨tx, hrun, hcommit⟩
  · rintro ⟨tx, hrun, hcommit⟩
    refine ExceptT.eval_bind_eq_ok.mpr ⟨(r, tx), sent, hrun, ?_⟩
    refine ExceptT.eval_bind_eq_ok.mpr ⟨db', sent, ?_, rfl⟩
    rw [ExceptT.eval_liftExcept, hcommit]

/-- The inversion of a whole run: it prepared, settled, and its rows are in. -/
theorem outcome_ok {c : TradingCycle} {db db' : Database} {r : CycleResult}
    {sent : List OrderIntent} (h : c.outcome db A = (.ok (r, db'), sent)) :
    ∃ p s, c.Commits db db' p s sent A ∧ r.decision = p.decision ∧ r.execution = s.execution ∧
      r.duplicateSuppressed = s.duplicateSuppressed := by
  obtain ⟨tx, hrun, hcommit⟩ := outcome_eq_ok.mp h
  obtain ⟨p, s, hp, hs, hconclude⟩ := run_ok.mp hrun
  obtain ⟨rfl, hresult⟩ := conclude_ok hconclude
  obtain ⟨hstored, hfits, htables⟩ := Transaction.commitSession_ok_iff.mp hcommit
  exact ⟨p, s, ⟨hp, hs, hstored, hfits, htables⟩, hresult⟩

/-- A run sends nothing, having nothing new to submit, or it sends the order of its own
    decision, also when it raises afterwards. -/
theorem outcome_sent (c : TradingCycle) (db : Database) :
    ((∀ p intent, c.Prepares db p A → p.decision.intent = some intent →
        db.alreadyExecuted intent.clientOrderId = true) ∧ (c.outcome db A).2 = []) ∨
      ∃ p intent, c.Prepares db p A ∧ p.decision.intent = some intent ∧
        db.alreadyExecuted intent.clientOrderId = false ∧ (c.outcome db A).2 = [intent] := by
  -- only acting on the decision sends anything: the commit and the record do not
  have hcommit : (c.outcome db A).2 = ((c.run db A).eval []).2 :=
    ExceptT.eval_bind_snd fun rtx sent => by
      obtain ⟨r, tx⟩ := rtx
      rw [ExceptT.eval_bind, ExceptT.eval_liftExcept]
      cases tx.commitSession db <;> rfl
  rw [hcommit, run, ExceptT.eval_bind, ExceptT.eval_liftExcept]
  cases hprepare : c.prepare db A with
  | error e =>
    refine .inl ⟨fun p _ hp => ?_, rfl⟩
    rw [prepare_ok.mpr hp] at hprepare
    cases hprepare
  | ok p =>
    have hrecord : ((do let s ← c.execute db p A; c.conclude p s A : CycleM _).eval []).2 =
        ((c.execute db p A).eval []).2 := ExceptT.eval_bind_snd fun s sent => rfl
    rw [hrecord]
    have hp := prepare_ok.mp hprepare
    rcases c.execute_sent (A := A) db p with ⟨hknown, hnone⟩ | ⟨intent, hintent, hnew, hsent⟩
    · refine .inl ⟨fun q intent hq hintent => ?_, hnone⟩
      exact hknown intent (hq.unique hp ▸ hintent)
    · exact .inr ⟨p, intent, hp, hintent, hnew, hsent⟩

end TradingCycle

/-! ## Runs that nothing gets in the way of -/

/-- The telemetry takes what a cycle of a symbol reports at its end. -/
structure Telemetry.Takes (t : Telemetry) (symbol : String) (outcome : DecisionOutcome)
    (equity opening : ℚ) (A : DecimalContext := .exact) : Prop where
  decision : t.recordDecision outcome symbol = .ok ()
  equity : ∀ e : EquitySnapshot, e.equityQuote = equity → e.dayOpeningEquity = opening →
    t.recordEquity e.equityQuote (e.drawdownRatioIn A) symbol = .ok ()
  duration : t.recordCycleDuration symbol = .ok ()

namespace TradingCycle

variable {A : DecimalContext}

/-- The end of a run: record the equity and commit. -/
def finish (c : TradingCycle) (p : Prepared) (s : Settlement) (db : Database)
    (A : DecimalContext := .exact) : Except Error (CycleResult × Database) := do
  let (r, tx) ← c.conclude p s A
  let db' ← tx.commitSession db
  return (r, db')

/-- A run that commits places its pending rows. -/
theorem finish_ok {c : TradingCycle} {p : Prepared} {s : Settlement} {db db' : Database}
    {r : CycleResult} (h : c.finish p s db A = .ok (r, db')) :
    (c.pending p s A).Fits db ∧ db' = (c.pending p s A).applyTo db := by
  unfold finish at h
  obtain ⟨⟨r', tx⟩, hconclude, h⟩ := Except.bind_eq_ok.mp h
  obtain ⟨db'', hcommit, h⟩ := Except.bind_eq_ok.mp h
  cases h
  obtain ⟨rfl, -⟩ := conclude_ok hconclude
  exact (Transaction.commitSession_ok_iff.mp hcommit).2

/-- The outcome of a job, with the order out of sight. -/
theorem outcome_fst (c : TradingCycle) (db : Database) :
    (c.outcome db A).1 = (do
      let p ← c.prepare db A
      let s ← ((c.execute db p A).eval []).1
      c.finish p s db A) := by
  unfold outcome job run finish
  simp only [ExceptT.eval_bind, ExceptT.eval_liftExcept]
  -- an error of any part is the error of the whole
  cases c.prepare db A with
  | error e => rfl
  | ok p =>
    rcases hexecute : (c.execute db p A).eval [] with ⟨e | s, sent⟩
    · simp only [hexecute, bind, Except.bind]
    · rcases hconclude : c.conclude p s A with e | ⟨r, tx⟩
      · simp only [hexecute, hconclude, bind, Except.bind]
      · cases hcommit : tx.commitSession db with
        | error e => simp only [hexecute, hconclude, hcommit, bind, Except.bind]
        | ok db' =>
          simp only [hexecute, hconclude, hcommit, bind, Except.bind]
          rfl

/-- A settled cycle concludes unless its telemetry raises. -/
theorem exists_conclude_iff {c : TradingCycle} {db : Database} {p : Prepared} {s : Settlement}
    (hp : c.Prepares db p A) : (∃ r tx, c.conclude p s A = .ok (r, tx)) ↔
      c.telemetry.Takes c.symbol p.decision.outcome (equityIn A s.cash s.position p.markPrice)
        p.account.dayOpeningEquity A := by
  unfold conclude
  constructor
  · rintro ⟨r, tx, h⟩
    obtain ⟨equity, hequity, h⟩ := Except.bind_eq_ok.mp h
    obtain ⟨_, hdecision, h⟩ := Except.bind_eq_ok.mp h
    obtain ⟨_, hgauges, h⟩ := Except.bind_eq_ok.mp h
    obtain ⟨_, hduration, -⟩ := Except.bind_eq_ok.mp h
    obtain ⟨-, -, -, -, -, hquote, hopening⟩ := EquitySnapshot.validate_ok hequity
    refine ⟨hdecision, fun e hequote heopening => ?_, hduration⟩
    -- the ratio depends on the two equities only
    have hratio : e.drawdownRatioIn A = equity.drawdownRatioIn A := by
      simp only [EquitySnapshot.drawdownRatioIn, hequote, heopening, hquote, hopening]
    rw [hequote, hratio, ← hquote]
    exact hgauges
  · rintro ⟨hdecision, hgauges, hduration⟩
    -- the snapshot itself is always valid: what it is made of has been checked before
    have hchecks : AllHold (EquitySnapshot.checks p.markPrice s.position.quantity
        p.account.dayOpeningEquity) :=
      ⟨hp.markPrice_pos, s.position.quantity_nonneg, p.account.dayOpeningEquity_pos, trivial⟩
    have hequity := hgauges ⟨c.clock, c.symbol, p.markPrice, s.cash, s.position.quantity,
      equityIn A s.cash s.position p.markPrice, p.account.dayOpeningEquity,
      hchecks.1, hchecks.2.1, hchecks.2.2.1⟩ rfl rfl
    simp only [EquitySnapshot.validate, validated_of_holds hchecks, bind, Except.bind, hdecision,
      hequity, hduration]
    exact ⟨_, _, rfl⟩

/-- A run that nobody else gets in the way of can place its rows. -/
theorem Settles.fits {c : TradingCycle} {db : Database} {p : Prepared} {s : Settlement}
    {sent : List OrderIntent} (h : c.Settles db p s sent A) : (c.pending p s A).Fits db := by
  cases h with
  | held => exact ⟨rfl, rfl, rfl⟩
  | suppressed => exact ⟨rfl, rfl, rfl⟩
  | @sent _ intent x hintent hnew hsends =>
    have hsave : (c.pending p (c.settle db x) A).position =
        some (savePosition db x.position c.clock) := rfl
    obtain ⟨hinsert, hupdate⟩ := db.savePosition_placed x.position c.clock hsave
    refine ⟨?_, hinsert, hupdate⟩
    have hid : x.order.clientOrderId = intent.clientOrderId := hsends.order_eq.1
    simpa [Transaction.duplicatesOrder, settle, hid, Database.alreadyExecuted] using hnew

/-- A run that has settled commits unless its telemetry raises or a column does not take its
    last rows. -/
theorem exists_outcome_iff {c : TradingCycle} {db : Database} {p : Prepared} {s : Settlement}
    {sent : List OrderIntent} (hp : c.Prepares db p A) (h : c.Settles db p s sent A) :
    (∃ r db', (c.outcome db A).1 = .ok (r, db')) ↔
      c.telemetry.Takes c.symbol p.decision.outcome (equityIn A s.cash s.position p.markPrice)
        p.account.dayOpeningEquity A ∧ (c.pending p s A).storable = true := by
  -- what is left of the job is its end, which can fail on the telemetry or on a column
  have hfinish : (c.outcome db A).1 = c.finish p s db A := by
    rw [outcome_fst, prepare_ok.mpr hp]
    simp only [bind, Except.bind, execute_ok.mpr h]
  rw [hfinish, ← exists_conclude_iff hp, finish]
  constructor
  · rintro ⟨r, db', hok⟩
    obtain ⟨⟨r', tx⟩, hconclude, hok⟩ := Except.bind_eq_ok.mp hok
    obtain ⟨_, hcommit, -⟩ := Except.bind_eq_ok.mp hok
    exact ⟨⟨r', tx, hconclude⟩,
      (conclude_ok hconclude).1 ▸ (Transaction.commitSession_ok_iff.mp hcommit).1⟩
  · rintro ⟨⟨r, tx, hconclude⟩, hstored⟩
    obtain ⟨rfl, -⟩ := conclude_ok hconclude
    have hcommit := Transaction.commitSession_ok_iff.mpr ⟨hstored, h.fits, rfl⟩
    simp only [hconclude, hcommit, bind, Except.bind]
    exact ⟨_, _, rfl⟩

end TradingCycle

/-! ## Sequences of runs -/

/-- One run that commits. -/
def Committed (db : Database) (c : TradingCycle) (db' : Database)
    (A : DecimalContext := .exact) : Prop :=
  ∃ r sent, c.outcome db A = (.ok (r, db'), sent)

/-- One run that commits, or raises at some point and leaves every row as it was. -/
def Attempted (db : Database) (c : TradingCycle) (db' : Database)
    (A : DecimalContext := .exact) : Prop :=
  Committed db c db' A ∨ db' = db

/-- A committed cycle was prepared, settled and written. -/
theorem Committed.commits {db db' : Database} {c : TradingCycle} {A : DecimalContext}
    (h : Committed db c db' A) : ∃ p s sent, c.Commits db db' p s sent A := by
  obtain ⟨r, sent, h⟩ := h
  obtain ⟨p, s, hcommits, -⟩ := TradingCycle.outcome_ok h
  exact ⟨p, s, sent, hcommits⟩

/-- A run of committed cycles is a run of attempts that all went through. -/
theorem attempted_of_committed {start db : Database} {cycles : List TradingCycle}
    {A : DecimalContext} (hrun : Runs (fun db c db' => Committed db c db' A) start cycles db) :
    Runs (fun db c db' => Attempted db c db' A) start cycles db :=
  hrun.mono fun _ _ _ => .inl

/-- The invariant rule for runs with strictly increasing clocks: when a cycle commits,
    its clock is newer than every snapshot there is. -/
theorem attempted_invariant {A : DecimalContext} {P : Database → Prop} {start db : Database}
    {cycles : List TradingCycle}
    (hrun : Runs (fun db c db' => Attempted db c db' A) start cycles db)
    (hclock : cycles.Pairwise (·.clock < ·.clock))
    (hstart : ∀ r ∈ start.equitySnapshots, ∀ c ∈ cycles, r.takenAt < c.clock) (h0 : P start)
    (hstep : ∀ db c db' p s sent, c ∈ cycles → (∀ r ∈ db.equitySnapshots, r.takenAt < c.clock) →
      P db → c.Commits db db' p s sent A → P db') : P db := by
  -- a snapshot was there at the start or was taken at the clock of an earlier cycle
  let Taken : List TradingCycle → Database → Prop := fun ls t =>
    ∀ r ∈ t.equitySnapshots, r ∈ start.equitySnapshots ∨ ∃ k ∈ ls, r.takenAt = k.clock
  have hinv : P db ∧ Taken cycles db := by
    refine hrun.invariant_of_pairwise (P := fun ls t => P t ∧ Taken ls t) hclock
      ⟨h0, fun r hr => .inl hr⟩ ?_
    rintro ls t c u hc hnewer ⟨ht, htaken⟩ (hcommitted | rfl)
    · obtain ⟨p, s, sent, hcommits⟩ := hcommitted.commits
      have hnew : ∀ r ∈ t.equitySnapshots, r.takenAt < c.clock := by
        intro r hr
        rcases htaken r hr with hr | ⟨k, hk, hrk⟩
        · exact hstart r hr c hc
        · exact hrk ▸ hnewer k hk
      refine ⟨hstep t c u p s sent hc hnew ht hcommits, fun r hr => ?_⟩
      rw [hcommits.tables, Transaction.applyTo_equitySnapshots] at hr
      rcases List.mem_append.mp hr with hr | hr
      · exact (htaken r hr).imp_right fun ⟨k, hk, hrk⟩ => ⟨k, List.mem_append_left _ hk, hrk⟩
      · obtain rfl := List.mem_singleton.mp hr
        exact .inr ⟨c, by simp, rfl⟩
    · exact ⟨ht, fun r hr => (htaken r hr).imp_right fun ⟨k, hk, hrk⟩ =>
        ⟨k, List.mem_append_left _ hk, hrk⟩⟩
  exact hinv.1

/-- The tables other than the positions are append-only. -/
structure Grows (db db' : Database) : Prop where
  orders : db.orders <+: db'.orders
  fills : db.fills <+: db'.fills
  equitySnapshots : db.equitySnapshots <+: db'.equitySnapshots

/-- A run only adds rows to the tables whose rows are never updated. -/
theorem grows_of_attempted {start db : Database} {cycles : List TradingCycle}
    (hrun : Runs Attempted start cycles db) : Grows start db := by
  refine hrun.invariant (I := Grows start) ⟨List.prefix_rfl, List.prefix_rfl, List.prefix_rfl⟩
    fun t c u _ ht hstep => ?_
  rcases hstep with hcommitted | rfl
  · obtain ⟨p, s, sent, h⟩ := hcommitted.commits
    rw [h.tables]
    exact ⟨ht.orders.trans (List.prefix_append _ _), ht.fills.trans (List.prefix_append _ _),
      ht.equitySnapshots.trans (List.prefix_append _ _)⟩
  · exact ht

/-- Snapshots are taken at the clocks of the cycles. -/
theorem takenAt_lt_of_attempted {start db : Database} {cycles : List TradingCycle}
    (hrun : Runs Attempted start cycles db) {now : Instant}
    (hstart : ∀ r ∈ start.equitySnapshots, r.takenAt < now) (hclock : ∀ c ∈ cycles, c.clock < now) :
    ∀ r ∈ db.equitySnapshots, r.takenAt < now := by
  refine hrun.invariant (I := fun db => ∀ r ∈ db.equitySnapshots, r.takenAt < now) hstart
    fun t c u hc ht hstep => ?_
  rcases hstep with hcommitted | rfl
  · obtain ⟨p, s, sent, h⟩ := hcommitted.commits
    rw [h.tables, Transaction.applyTo_equitySnapshots, List.forall_mem_append]
    exact ⟨ht, by simpa using hclock c hc⟩
  · exact ht

/-- The committed rows and the intents handed to `gateway.submit` so far. -/
structure Trace where
  tables : Database
  submitted : List OrderIntent

/-- One run that commits, with the intents it submitted. -/
def Trace.Extends (t : Trace) (c : TradingCycle) (u : Trace) (A : DecimalContext := .exact) :
    Prop :=
  ∃ r sent, c.outcome t.tables A = (.ok (r, u.tables), sent) ∧ u.submitted = t.submitted ++ sent

/-- A cycle that extends a trace has committed, and the trace has grown by what it sent. -/
theorem Trace.Extends.commits {t u : Trace} {c : TradingCycle} {A : DecimalContext}
    (h : t.Extends c u A) :
    ∃ p s sent, c.Commits t.tables u.tables p s sent A ∧ u.submitted = t.submitted ++ sent := by
  obtain ⟨r, sent, h, hsubmitted⟩ := h
  obtain ⟨p, s, hcommits, -⟩ := TradingCycle.outcome_ok h
  exact ⟨p, s, sent, hcommits, hsubmitted⟩

/-! ## Running a sequence -/

section Running

variable {A : DecimalContext}

/-- What a run leaves, when it commits. -/
def Trace.extend (t : Trace) (c : TradingCycle) (A : DecimalContext := .exact) : Option Trace :=
  match c.outcome t.tables A with
  | (.ok (_, db), sent) => some ⟨db, t.submitted ++ sent⟩
  | (.error _, _) => none

/-- What a sequence of runs leaves, when each of them commits. -/
def Trace.extendAll (t : Trace) (cycles : List TradingCycle) (A : DecimalContext := .exact) :
    Option Trace :=
  cycles.foldlM (fun t c => t.extend c A) t

/-- The rows a sequence of runs leaves, when each of them commits. -/
def commitAll (db : Database) (cycles : List TradingCycle) (A : DecimalContext := .exact) :
    Option Database :=
  ((⟨db, []⟩ : Trace).extendAll cycles A).map Trace.tables

/-- `extend` computes the relation. -/
theorem Trace.extend_eq_some {t u : Trace} {c : TradingCycle} :
    t.extend c A = some u ↔ t.Extends c u A := by
  unfold extend Extends
  rcases c.outcome t.tables A with ⟨_ | ⟨r, db⟩, sent⟩
  · simp
  · cases u
    simp [eq_comm]

/-- Running a sequence computes a run of committed cycles. -/
theorem Trace.extendAll_eq_some {t u : Trace} {cycles : List TradingCycle} :
    t.extendAll cycles A = some u ↔ Runs (fun t c u => Extends t c u A) t cycles u := by
  have hstep : (fun t c u => Extends t c u A) = fun t c u => t.extend c A = some u := by
    funext t c u
    exact propext extend_eq_some.symm
  rw [hstep]
  exact Runs.foldlM_eq_some

/-- A traced run is a run of the rows. -/
theorem Trace.committed_of_runs {t u : Trace} {cycles : List TradingCycle}
    (hrun : Runs (fun t c u => Extends t c u A) t cycles u) :
    Runs (fun db c db' => Committed db c db' A) t.tables cycles u.tables := by
  induction hrun with
  | nil => exact .nil
  | snoc _ hlast ih =>
    obtain ⟨r, sent, h, -⟩ := hlast
    exact .snoc ih ⟨r, sent, h⟩

/-- Cycles that `commitAll` takes one after another form a run. -/
theorem runs_of_commitAll {db db' : Database} {cycles : List TradingCycle}
    (h : commitAll db cycles A = some db') :
    Runs (fun db c db' => Committed db c db' A) db cycles db' := by
  obtain ⟨t, ht, rfl⟩ := Option.map_eq_some_iff.mp h
  exact Trace.committed_of_runs (Trace.extendAll_eq_some.mp ht)

/-- A single cycle that `commitAll` takes has been prepared, settled and written. -/
theorem commits_of_commitAll {db db' : Database} {c : TradingCycle}
    (h : commitAll db [c] A = some db') : ∃ p s sent, c.Commits db db' p s sent A := by
  have hrun : Runs (fun db c db' => Committed db c db' A) db ([] ++ [c]) db' :=
    runs_of_commitAll h
  obtain ⟨t, hbefore, hlast⟩ := Runs.snoc_iff.mp hrun
  cases Runs.nil_iff.mp hbefore
  exact hlast.commits

end Running

end TradingBot
