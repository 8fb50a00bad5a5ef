import TradingBot.Retry
import TradingBot.Spec.DecimalVerdict
import TradingBot.Spec.Ledger
import TradingBot.Spec.OneBar
import TradingBot.Spec.Scenario
import TradingBot.Spec.VenueFills

/-!
# Executed orders and crashes

A run that dies after the venue executed its order leaves nothing in the tables. The
retry sends the order again, the venue refuses the repeated client order id, the gateway
turns the refusal into a rejected execution without fills, and that is committed. An answer
that does not report the execution, such as a timeout, ends the same way. So the tables carry
an executed order exactly when the venue reports it and nothing fails before the commit of the
run that sent it. All is computed with the 28 digits of the default context.

## Key results

- `Market.attempt_effect`: what one run does to the book of the venue and to the tables
- `Market.Tracked`: how far the order of a bar has come; kept by every run
- `fill_kept_iff_records`: when the tables carry what the venue executed, over any number of
  retries and crashes
-/

namespace TradingBot

open FixedPoint

/-! ## The book of the venue -/

namespace Market

variable {m : Market} {a : Attempt} {p : Prepared} {intent : OrderIntent}
  {execution : VenueExecution}

/-- A run sends at most one new order. -/
theorem SendsNew.unique {q : Prepared} {i : OrderIntent} (h : m.SendsNew a p intent .default)
    (h' : m.SendsNew a q i .default) : p = q ∧ intent = i := by
  cases h.prepared.unique h'.prepared
  exact ⟨rfl, Option.some.inj (h.intent_eq.symm.trans h'.intent_eq)⟩

/-- The venue executes at most one order of an attempt. -/
theorem Executes.unique {q : Prepared} {i : OrderIntent} {e : VenueExecution}
    (h : m.Executes a p intent execution .default) (h' : m.Executes a q i e .default) :
    p = q ∧ intent = i ∧ execution = e := by
  obtain ⟨rfl, rfl⟩ := h.toSendsNew.unique h'.toSendsNew
  exact ⟨rfl, rfl, Option.some.inj (h.executed.symm.trans h'.executed)⟩

/-- The venue executes the order of an attempt, or nothing happens to its book. -/
theorem bookAfter_cases (m : Market) (a : Attempt) (hlives : a.diesAt ≠ some .beforeSubmit) :
    ((∀ p intent execution, ¬m.Executes a p intent execution .default) ∧
        m.bookAfter a .default = m.book) ∨
      ∃ p intent execution, m.Executes a p intent execution .default ∧
        m.bookAfter a .default =
          m.book ++ [⟨CcxtSandboxExchange.request intent, execution⟩] := by
  rcases (a.cycleAt m.book).outcome_sent (A := .default) m.tables with ⟨hknown, hnone⟩ |
    ⟨p, intent, hp, hintent, hnew, hsent⟩
  -- nothing was sent: there was no intent, or its order was known
  · refine .inl ⟨fun p intent execution h => ?_, ?_⟩
    · exact absurd (hknown p intent h.prepared h.intent_eq) (by simp [h.unknown])
    · rw [bookAfter, outcome, hnone]
      rfl
  -- one order was sent, and the venue executed it or did not
  · have hafter : m.bookAfter a .default =
        a.bookAfter m.book (CcxtSandboxExchange.request intent) := by
      rw [bookAfter, outcome, hsent]
      rfl
    rw [hafter]
    rcases a.bookAfter_spec m.book (CcxtSandboxExchange.request intent) with ⟨hsame, hnothing⟩ |
      ⟨execution, hfresh, hexecuted, hbook⟩
    · refine .inl ⟨fun q i execution h => ?_, hsame⟩
      cases h.prepared.unique hp
      cases h.intent_eq.symm.trans hintent
      exact nomatch h.executed.symm.trans (hnothing h.new)
    · exact .inr ⟨p, intent, execution, ⟨⟨hlives, hp, hintent, hnew, hfresh⟩, hexecuted⟩, hbook⟩

end Market

/-! ## Between the execution and the commit -/

/-- A fill row has the amounts of an execution. -/
structure FillRecord.Carries (row : FillRecord) (execution : VenueExecution) : Prop where
  quantity : row.quantity.toRat = execution.quantity
  price : row.price.toRat = execution.price
  feeQuote : row.feeQuote.toRat = execution.feeQuote

/-- An answer reports an execution: its filled quantity, its price and its fee, kept with 18
    decimals, are those of the execution, and they make a valid fill. -/
structure VenueExecution.ReportedBy (execution : VenueExecution) (response : OrderResponse) :
    Prop where
  executed : response.Executed
  decodes : CcxtSandboxExchange.Decodes response
  quantity : roundTo 18 (response.filled.getD 0) = execution.quantity
  price : ∀ price, response.executedPrice = some price → roundTo 18 price = execution.price
  feeQuote : roundTo 18 (response.feeCost.getD 0) = execution.feeQuote

/-- The row of a fill carries an execution exactly when the answer reports it. -/
theorem reportedBy_iff {response : OrderResponse} {intent : OrderIntent} {fill : Fill}
    {execution : VenueExecution} (hexecuted : response.Executed)
    (hdecodes : CcxtSandboxExchange.Decodes response)
    (h : CcxtSandboxExchange.Reports response intent fill) :
    execution.ReportedBy response ↔ (recordFill fill).Carries execution := by
  -- a column gives back what it was given, rounded
  have hquantity : (recordFill fill).quantity.toRat = roundTo 18 (response.filled.getD 0) :=
    (Numeric.toRat_ofRat 18 _).trans (by rw [h.quantity])
  have hprice : (recordFill fill).price.toRat = roundTo 18 fill.price := Numeric.toRat_ofRat 18 _
  have hfee : (recordFill fill).feeQuote.toRat = roundTo 18 (response.feeCost.getD 0) :=
    (Numeric.toRat_ofRat 18 _).trans (by rw [h.feeQuote])
  constructor
  · intro hreported
    exact ⟨hquantity.trans hreported.quantity, hprice.trans (hreported.price _ h.price),
      hfee.trans hreported.feeQuote⟩
  · intro hcarries
    refine ⟨hexecuted, hdecodes, hquantity.symm.trans hcarries.quantity, fun price hsome => ?_,
      hfee.symm.trans hcarries.feeQuote⟩
    cases h.price.symm.trans hsome
    exact hprice.symm.trans hcarries.price

/-- The venue answers with what it executed, and the bot can take it: the order is of the
    cycle's symbol, a sale is filled with no more than is held, the columns take the rows and
    telemetry what it is told. -/
structure Attempt.Reports (a : Attempt) (m : Market) (p : Prepared) (intent : OrderIntent)
    (execution : VenueExecution) (response : OrderResponse) : Prop where
  answered : a.answer (CcxtSandboxExchange.request intent) = .ok response
  reported : execution.ReportedBy response
  symbol : intent.symbol = a.cycle.symbol
  covered : intent.side = .sell → response.filled.getD 0 ≤ p.account.position.quantity
  taken : ∀ fill, CcxtSandboxExchange.Reports response intent fill →
    fill.filledAt = a.answeredAt → (a.cycleAt m.book).TakesExecution m.tables p
      (CcxtSandboxExchange.filledExecution intent response fill)

/-- Nothing fails between the execution of an order and the commit: the run does not die, and
    the venue reports what it executed to a bot that can take it. -/
def Attempt.Records (a : Attempt) (m : Market) (p : Prepared) (intent : OrderIntent)
    (execution : VenueExecution) : Prop :=
  a.diesAt ≠ some .beforeCommit ∧ ∃ response, a.Reports m p intent execution response

/-! ## A run that commits -/

/-- Nothing that concerns fills changes. -/
structure Database.SameFills (symbol : String) (db db' : Database) : Prop where
  orders : db.orders <+: db'.orders
  fills : db'.fills = db.fills
  held : db'.heldQuantity symbol = db.heldQuantity symbol

/-- A fill is added: an order row that is not rejected, the fill row, and the quantity of the
    positions row moved by the fill. -/
structure Database.Books (symbol : String) (db db' : Database) (intent : OrderIntent)
    (fill : Fill) : Prop where
  row : ∃ row ∈ db'.orders, row.clientOrderId = intent.clientOrderId ∧ row.status ≠ .rejected ∧
    row.side = fill.side
  fills : db'.fills = db.fills ++ [recordFill fill]
  held : db'.heldQuantity symbol =
    roundTo 18 (rounded (db.heldQuantity symbol + fill.signedQuantity))

/-- A database has the fills of itself. -/
theorem Database.SameFills.refl (symbol : String) (db : Database) : SameFills symbol db db :=
  ⟨List.prefix_rfl, rfl, rfl⟩

namespace TradingCycle.Commits

variable {A : DecimalContext} {c : TradingCycle} {db db' : Database} {p : Prepared}
  {s : Settlement} {sent : List OrderIntent}

/-- A commit only adds order rows. -/
theorem orders_prefix (h : c.Commits db db' p s sent A) : db.orders <+: db'.orders := by
  rw [h.tables]
  exact List.prefix_append _ _

/-- A commit adds the fills of its settlement, and no others. -/
theorem fills_eq (h : c.Commits db db' p s sent A) :
    db'.fills = db.fills ++ s.filled.map recordFill := by
  rw [h.tables, Transaction.applyTo_fills, pending_fills, h.settled.saves.fills]

end TradingCycle.Commits

/-- The order row of a sent order has the status of the answer. -/
theorem TradingCycle.Sends.order_status {A : DecimalContext} {c : TradingCycle} {p : Prepared}
    {intent : OrderIntent} {x : Executed} (h : c.Sends p intent x A) :
    x.order.status = x.execution.status := by
  have hrow : x.order = (recordExecution p.cycleId p.decision x.execution).1 :=
    (congrArg Prod.fst h.recorded).symm
  rw [hrow]
  rfl

namespace Market

variable {m : Market} {a : Attempt} {db' : Database} {p : Prepared} {s : Settlement}
  {sent : List OrderIntent} {intent : OrderIntent} {execution : VenueExecution}

/-- A run that keeps its account settles at the quantity that is held. -/
private theorem sameFills_of_unchanged {suppressed : Bool}
    (h : (a.cycleAt m.book).Commits m.tables db' p (.unchanged p.account suppressed) sent
      .default) : m.tables.SameFills a.cycle.symbol db' where
  orders := h.orders_prefix
  fills := by
    rw [h.fills_eq]
    exact List.append_nil _
  held := by
    have hheld := h.heldQuantity
    rw [Attempt.cycleAt_symbol] at hheld
    rw [hheld]
    have hloaded : p.account.position.quantity = m.tables.heldQuantity a.cycle.symbol :=
      h.prepared.loaded_eq.2.2.1
    show roundTo 18 p.account.position.quantity = _
    rw [hloaded, roundTo_of_mem (m.tables.heldQuantity_mem _)]

/-- A run that commits leaves what concerns fills alone, or it has sent a new order, been
    answered with a fill, and books it. -/
private theorem commits_cases (hlives : a.diesAt ≠ some .beforeSubmit)
    (h : (a.cycleAt m.book).Commits m.tables db' p s sent .default) :
    m.tables.SameFills a.cycle.symbol db' ∨
      ∃ intent response fill, m.SendsNew a p intent .default ∧
        a.answer (CcxtSandboxExchange.request intent) = .ok response ∧ response.Executed ∧
        CcxtSandboxExchange.Decodes response ∧
        CcxtSandboxExchange.Reports response intent fill ∧
        m.tables.Books a.cycle.symbol db' intent fill := by
  have hsettled := h.settled
  have hheld := h.heldQuantity
  cases hsettled with
  | held => exact .inl (sameFills_of_unchanged h)
  | suppressed => exact .inl (sameFills_of_unchanged h)
  | @sent _ intent x hintent hnew hsends =>
    have hfilled : (TradingCycle.settle (a.cycleAt m.book) m.tables x).filled =
        x.execution.fills := rfl
    have hrows := h.fills_eq
    have hloaded : p.account.position.quantity = m.tables.heldQuantity a.cycle.symbol :=
      h.prepared.loaded_eq.2.2.1
    obtain ⟨fees, hfold⟩ := hsends.foldedIn
    rw [hfilled] at hrows
    rcases CcxtSandboxExchange.submit_ok hsends.answered with ⟨hnothing, -⟩ |
      ⟨response, fill, hcreate, hexecuted, hfills, hstatus, hreports⟩
    · -- the answer has no fill: nothing is moved
      refine .inl ⟨h.orders_prefix, by rw [hrows, hnothing]; exact List.append_nil _, ?_⟩
      unfold applyExecutionIn at hfold
      rw [hnothing] at hfold
      have hkept : p.account.position = x.position :=
        congrArg LedgerUpdate.position (Except.ok.inj hfold)
      refine hheld.trans ?_
      show roundTo 18 x.position.quantity = _
      rw [← hkept, hloaded, roundTo_of_mem (m.tables.heldQuantity_mem _)]
    · obtain ⟨hfresh, hanswer⟩ := Attempt.createOrder_ok hcreate
      obtain ⟨hid, -, hside, -⟩ := hsends.order_eq
      refine .inr ⟨intent, response, fill, ⟨hlives, h.prepared, hintent, hnew, hfresh⟩, hanswer,
        hexecuted, ⟨⟨fill.price, hreports.price, fill.price_pos⟩,
          hreports.feeQuote ▸ fill.feeQuote_nonneg⟩, hreports, ⟨x.order, ?_, hid, ?_, ?_⟩, ?_, ?_⟩
      · rw [h.tables]
        exact List.mem_append_right _ (by simp [TradingCycle.settle])
      · rw [hsends.order_status]
        exact hstatus
      · exact hside.trans hreports.side.symm
      · rw [hrows, hfills, List.map_singleton]
      · refine hheld.trans ?_
        show roundTo 18 x.position.quantity = _
        rw [applyExecutionIn_quantity hfills hfold, hloaded]

/-- Nothing fails after the venue executed an order exactly when the run commits with a fill
    row that carries the execution. -/
theorem Executes.records_iff (h : m.Executes a p intent execution .default) :
    a.Records m p intent execution ↔ m.Commits a .default ∧ ∃ r db fill,
      (m.outcome a .default).1 = .ok (r, db) ∧
        db.fills = m.tables.fills ++ [recordFill fill] ∧
        (recordFill fill).Carries execution := by
  have hsym : p.account.position.symbol = a.cycle.symbol := h.prepared.loaded_eq.2.1
  constructor
  · rintro ⟨hlives, response, hreports⟩
    have hcreate := (Attempt.createOrder_of_new h.new).trans hreports.answered
    obtain ⟨e, fill, he, hfills, hfill⟩ : ∃ e fill,
        CcxtSandboxExchange.submit (a.createOrder m.book) a.answeredAt intent = .ok e ∧
          e.fills = [fill] ∧ CcxtSandboxExchange.Reports response intent fill :=
      CcxtSandboxExchange.exists_fill_of_decodes hcreate hreports.reported.executed
        hreports.reported.decodes
    obtain ⟨hexecution, hat⟩ := CcxtSandboxExchange.eq_filledExecution hcreate he hfills
    -- the fill is folded into the account the order was approved on
    have hfold : ∃ u,
        applyExecutionIn .default p.account.cashQuote p.account.position e = .ok u := by
      refine exists_applyExecutionIn hfills ?_ fun hsell => ?_
      · exact hfill.symbol.trans (hreports.symbol.trans hsym.symm)
      · rw [hfill.quantity]
        exact hreports.covered (hfill.side.symm.trans hsell)
    obtain ⟨r, db, hok, hrows⟩ := (TradingCycle.exists_outcome_of_answer_iff h.prepared
      h.intent_eq h.unknown he).mpr ⟨hfold, hexecution ▸ hreports.taken fill hfill hat⟩
    refine ⟨⟨h.lives, hlives, r, db, hok⟩, r, db, fill, hok, ?_, ?_⟩
    · rw [hrows, hfills, List.map_singleton]
    · exact (reportedBy_iff hreports.reported.executed hreports.reported.decodes hfill).mp
        hreports.reported
  · rintro ⟨⟨-, hlives, -⟩, r, db, fill, hok, hrows, hcarries⟩
    obtain ⟨x, hsends, hsent, -⟩ :=
      TradingCycle.exists_sends_of_outcome h.prepared h.intent_eq h.unknown hok
    have hfillRows : x.execution.fills.map recordFill = [recordFill fill] :=
      List.append_cancel_left (hsent.symm.trans hrows)
    rcases CcxtSandboxExchange.submit_ok hsends.answered with ⟨hnothing, -⟩ |
      ⟨response, fill', hcreate, hexecuted, hfills, -, hreports⟩
    · simp [hnothing] at hfillRows
    · have hrow : recordFill fill' = recordFill fill := by simpa [hfills] using hfillRows
      have hdecodes : CcxtSandboxExchange.Decodes response :=
        ⟨⟨fill'.price, hreports.price, fill'.price_pos⟩,
          hreports.feeQuote ▸ fill'.feeQuote_nonneg⟩
      obtain ⟨fees, hfold⟩ := hsends.foldedIn
      obtain ⟨hsymbol, hcovered⟩ := applyExecutionIn_covered hfills hfold
      obtain ⟨hexecution, hat⟩ :=
        CcxtSandboxExchange.eq_filledExecution hcreate hsends.answered hfills
      obtain ⟨-, htakes⟩ := (TradingCycle.exists_outcome_of_answer_iff h.prepared h.intent_eq
        h.unknown hsends.answered).mp ⟨r, db, hok, hsent⟩
      refine ⟨hlives, response, (Attempt.createOrder_ok hcreate).2,
        (reportedBy_iff hexecuted hdecodes hreports).mpr (hrow ▸ hcarries), ?_, fun hsell => ?_,
        fun other hother hotherAt => ?_⟩
      · rw [← hsym, ← hreports.symbol]
        exact hsymbol
      · rw [← hreports.quantity]
        exact hcovered (hreports.side.trans hsell)
      · obtain rfl : other = fill' := hother.unique hreports (hotherAt.trans hat.symm)
        exact hexecution ▸ htakes

end Market

/-! ## What the tables carry -/

/-- The only fill row of an executed order carries what was executed. -/
def Database.FilledAs (db : Database) (v : VenueOrder) : Prop :=
  ∃ row, db.fills.filter (·.clientOrderId = v.request.clientOrderId) = [row] ∧
    row.Carries v.execution

/-- The tables carry an executed order: an order row that is not rejected, what was executed
    in its only fill row, and the fill in the quantity of the positions row. -/
def Database.Carries (db : Database) (symbol : String) (before : ℚ) (v : VenueOrder) : Prop :=
  ∃ row ∈ db.orders, ∃ fill : Fill,
    row.clientOrderId = v.request.clientOrderId ∧ row.status ≠ .rejected ∧
    row.side = fill.side ∧ fill.side.value = v.request.side ∧
    db.fills.filter (·.clientOrderId = v.request.clientOrderId) = [recordFill fill] ∧
    (recordFill fill).Carries v.execution ∧
    db.heldQuantity symbol = roundTo 18 (rounded (before + fill.signedQuantity))

/-- The tables have no fill of a bar, and the positions row is as it was before the bar. -/
structure Database.Untouched (db : Database) (bar symbol : String) (before : ℚ) : Prop where
  fills : ∀ f ∈ db.fills, ∀ side, f.clientOrderId ≠ orderId bar side
  held : db.heldQuantity symbol = before

namespace Database

variable {db db' : Database} {bar symbol : String} {before : ℚ} {v : VenueOrder}

/-- A database that carries an order has its fill. -/
theorem Carries.filledAs (h : db.Carries symbol before v) : db.FilledAs v := by
  obtain ⟨-, -, fill, -, -, -, -, hfills, hcarries, -⟩ := h
  exact ⟨recordFill fill, hfills, hcarries⟩

/-- Which orders are filled only depends on the fill rows. -/
theorem SameFills.filledAs_iff (h : db.SameFills symbol db') :
    db'.FilledAs v ↔ db.FilledAs v := by
  rw [FilledAs, FilledAs, h.fills]

/-- Order rows stay, so an order that was known still is. -/
theorem SameFills.alreadyExecuted (h : db.SameFills symbol db') {clientOrderId : String}
    (hknown : db.alreadyExecuted clientOrderId = true) :
    db'.alreadyExecuted clientOrderId = true := by
  obtain ⟨row, hrow, hid⟩ := List.any_eq_true.mp hknown
  exact List.any_eq_true.mpr ⟨row, h.orders.subset hrow, hid⟩

/-- A booked order has a row, under its id. -/
theorem Books.alreadyExecuted {intent : OrderIntent} {fill : Fill}
    (h : db.Books symbol db' intent fill) :
    db'.alreadyExecuted intent.clientOrderId = true := by
  obtain ⟨row, hrow, hid, -⟩ := h.row
  exact List.any_eq_true.mpr ⟨row, hrow, decide_eq_true hid⟩

/-- An order that is carried stays carried while no fill is written. -/
theorem Carries.mono (h : db.Carries symbol before v) (hsame : db.SameFills symbol db') :
    db'.Carries symbol before v := by
  obtain ⟨row, hrow, fill, hid, hstatus, hside, hvalue, hfills, hcarries, hheld⟩ := h
  exact ⟨row, hsame.orders.subset hrow, fill, hid, hstatus, hside, hvalue,
    hsame.fills ▸ hfills, hcarries, hsame.held ▸ hheld⟩

/-- A bar without orders keeps its quantity while no fill is written. -/
theorem Untouched.mono (h : db.Untouched bar symbol before) (hsame : db.SameFills symbol db') :
    db'.Untouched bar symbol before :=
  ⟨hsame.fills ▸ h.fills, hsame.held.trans h.held⟩

section Rows

variable {id : String} {row : FillRecord}

/-- The rows of an order that had none, once one is added. -/
theorem filter_fills_append (hnone : ∀ f ∈ db.fills, f.clientOrderId ≠ id)
    (hfills : db'.fills = db.fills ++ [row]) (hid : row.clientOrderId = id) :
    db'.fills.filter (·.clientOrderId = id) = [row] := by
  have hbefore : db.fills.filter (·.clientOrderId = id) = [] :=
    List.filter_eq_nil_iff.mpr (by simpa using hnone)
  rw [hfills, List.filter_append, hbefore]
  simp [hid]

/-- Tables without a fill row of an order do not have what was executed of it. -/
theorem not_filledAs_of_none (hnone : ∀ f ∈ db.fills, f.clientOrderId ≠ v.request.clientOrderId) :
    ¬db.FilledAs v := by
  rintro ⟨row, hrow, -⟩
  have hmem : row ∈ db.fills.filter (·.clientOrderId = v.request.clientOrderId) := by
    rw [hrow]
    exact List.mem_singleton_self _
  obtain ⟨hmem, hid⟩ := List.mem_filter.mp hmem
  exact hnone row hmem (of_decide_eq_true hid)

end Rows

end Database

/-! ## One attempt -/

namespace Market

variable {m : Market} {a : Attempt} {p : Prepared} {intent : OrderIntent}
  {execution : VenueExecution}

/-- A run that dies before its commit, or raises, does not record anything. -/
private theorem Executes.not_records (h : m.Executes a p intent execution .default)
    (hfailed : ¬m.Commits a .default) : ¬a.Records m p intent execution :=
  fun hrecords => hfailed (h.records_iff.mp hrecords).1

/-- A run that commits after the venue executed its order, of which the tables had no fill,
    carries it, unless something failed: then the tables do not have what was executed. -/
private theorem Executes.settles (h : m.Executes a p intent execution .default)
    (hcommits : m.Commits a .default) {r : CycleResult} {db : Database}
    (hok : (m.outcome a .default).1 = .ok (r, db))
    (hnone : ∀ f ∈ m.tables.fills, f.clientOrderId ≠ intent.clientOrderId) :
    (¬a.Records m p intent execution ∧
        ¬db.FilledAs ⟨CcxtSandboxExchange.request intent, execution⟩) ∨
      (a.Records m p intent execution ∧
        db.Carries a.cycle.symbol (m.tables.heldQuantity a.cycle.symbol)
          ⟨CcxtSandboxExchange.request intent, execution⟩) := by
  have hrun : (a.cycleAt m.book).outcome m.tables .default =
      (.ok (r, db), (m.outcome a .default).2) := Prod.ext hok rfl
  obtain ⟨q, s, hcommit, -⟩ := TradingCycle.outcome_ok hrun
  rcases commits_cases h.lives hcommit with hsame |
    ⟨i, response, fill, hsends, -, -, -, hreports, hbooks⟩
  · -- no fill row was added
    refine .inl ⟨fun hrecords => ?_, ?_⟩
    · obtain ⟨-, r', db', fill, hok', hrows, -⟩ := h.records_iff.mp hrecords
      cases hok.symm.trans hok'
      simp [hsame.fills] at hrows
    · exact Database.not_filledAs_of_none (hsame.fills ▸ hnone)
  · obtain ⟨rfl, rfl⟩ := h.toSendsNew.unique hsends
    have hrows := Database.filter_fills_append hnone hbooks.fills
      hreports.clientOrderId
    -- what the run recorded is what its only fill row carries
    have hrecords : a.Records m p intent execution ↔ (recordFill fill).Carries execution := by
      rw [h.records_iff]
      constructor
      · rintro ⟨-, r', db', fill', hok', hfills, hcarries⟩
        cases hok.symm.trans hok'
        rw [hbooks.fills] at hfills
        have hrow : recordFill fill = recordFill fill' :=
          List.singleton_inj.mp (List.append_cancel_left hfills)
        exact hrow ▸ hcarries
      · exact fun hcarries => ⟨hcommits, r, db, fill, hok, hbooks.fills, hcarries⟩
    by_cases hcarries : (recordFill fill).Carries execution
    · obtain ⟨row, hrow, hid, hstatus, hside⟩ := hbooks.row
      exact .inr ⟨hrecords.mpr hcarries, row, hrow, fill, hid, hstatus, hside,
        congrArg _ hreports.side, hrows, hcarries, hbooks.held⟩
    · refine .inl ⟨hrecords.not.mpr hcarries, ?_⟩
      rintro ⟨row, hrow, hrowcarries⟩
      have hsame : recordFill fill = row := List.singleton_inj.mp (hrows.symm.trans hrow)
      exact hcarries (hsame ▸ hrowcarries)

/-- In an attempt the venue executes nothing; then the fills stay as they are, unless the run
    has booked a fill all the same. Or the venue executes an order that is new to it; then the
    tables carry the order if nothing fails, and do not have its fill if something does. -/
private theorem attempt_effect (m : Market) (a : Attempt) :
    ((∀ p intent execution, ¬m.Executes a p intent execution .default) ∧
        (m.attempt a .default).book = m.book ∧
        (m.tables.SameFills a.cycle.symbol (m.attempt a .default).tables ∨
          ∃ p intent, m.SendsNew a p intent .default ∧
            (m.attempt a .default).tables.alreadyExecuted intent.clientOrderId = true)) ∨
      ∃ p intent execution, m.Executes a p intent execution .default ∧
        (m.attempt a .default).book =
          m.book ++ [⟨CcxtSandboxExchange.request intent, execution⟩] ∧
        ((∀ f ∈ m.tables.fills, f.clientOrderId ≠ intent.clientOrderId) →
          (¬a.Records m p intent execution ∧ ¬(m.attempt a .default).tables.FilledAs
              ⟨CcxtSandboxExchange.request intent, execution⟩) ∨
            (a.Records m p intent execution ∧ (m.attempt a .default).tables.Carries
              a.cycle.symbol (m.tables.heldQuantity a.cycle.symbol)
              ⟨CcxtSandboxExchange.request intent, execution⟩)) := by
  -- where the run dies, and whether it commits
  rcases m.attempt_cases a .default with ⟨hdies, hafter⟩ | ⟨hlives, heffect⟩
  · rw [hafter]
    exact .inl ⟨fun _ _ _ h => h.lives hdies, rfl, .inl (.refl _ _)⟩
  · rcases heffect with ⟨hfailed, hafter⟩ | ⟨hcommits, r, db, hok, hafter⟩
    · rw [hafter]
      rcases m.bookAfter_cases a hlives with ⟨hnone, hbook⟩ | ⟨p, intent, execution, h, hbook⟩
      · exact .inl ⟨hnone, hbook, .inl (.refl _ _)⟩
      · exact .inr ⟨p, intent, execution, h, hbook, fun hnone =>
          .inl ⟨h.not_records hfailed, Database.not_filledAs_of_none hnone⟩⟩
    · rw [hafter]
      rcases m.bookAfter_cases a hlives with ⟨hnone, hbook⟩ | ⟨p, intent, execution, h, hbook⟩
      · have hrun : (a.cycleAt m.book).outcome m.tables .default =
            (.ok (r, db), (m.outcome a .default).2) := Prod.ext hok rfl
        obtain ⟨q, s, hcommit, -⟩ := TradingCycle.outcome_ok hrun
        refine .inl ⟨hnone, hbook, ?_⟩
        rcases commits_cases hlives hcommit with hsame | ⟨i, _, _, hsends, -, -, -, -, hbooks⟩
        · exact .inl hsame
        · exact .inr ⟨q, i, hsends, hbooks.alreadyExecuted⟩
      · exact .inr ⟨p, intent, execution, h, hbook, h.settles hcommits hok⟩

end Market

/-! ## Retries on one snapshot -/

/-- The side a strategy asks for on a snapshot. -/
def Strategy.Asks (strategy : Strategy) (snapshot : MarketSnapshot) (side : OrderSide) : Prop :=
  ∃ signal, strategy.evaluate snapshot = .ok signal ∧
    signal.action = PolicyEngine.sideAction side

/-- A strategy asks for one side on a snapshot, since the signal is a function of it. -/
theorem Strategy.Asks.unique {strategy : Strategy} {snapshot : MarketSnapshot}
    {side side' : OrderSide} (h : strategy.Asks snapshot side)
    (h' : strategy.Asks snapshot side') : side = side' := by
  obtain ⟨signal, hsignal, haction⟩ := h
  obtain ⟨signal', hsignal', haction'⟩ := h'
  cases hsignal.symm.trans hsignal'
  exact PolicyEngine.sideAction_injective (haction.symm.trans haction')

/-- An attempt runs one strategy for one symbol, and fetches nothing but one snapshot. -/
structure Attempt.On (a : Attempt) (strategy : Strategy) (symbol : String)
    (snapshot : MarketSnapshot) : Prop where
  symbol_eq : a.cycle.symbol = symbol
  strategy_eq : a.cycle.strategy = strategy
  fetched : ∀ fetched, a.cycle.gateway.fetchSnapshot a.cycle.symbol a.cycle.timeframe
    a.cycle.candleLimit = .ok fetched → fetched = snapshot

/-- The intents of the attempts have the order id of the side that the strategy asks for. -/
theorem Attempt.On.clientOrderId_eq {a : Attempt} {strategy : Strategy} {symbol : String}
    {snapshot : MarketSnapshot} (h : a.On strategy symbol snapshot) {book : List VenueOrder}
    {db : Database} {p : Prepared} {intent : OrderIntent}
    (hp : (a.cycleAt book).Prepares db p .default) (hintent : p.decision.intent = some intent) :
    strategy.Asks snapshot intent.side ∧
      intent.clientOrderId = orderId (buildCycleId snapshot) intent.side := by
  obtain ⟨haction, hid⟩ := hp.intent_eqIn hintent
  have hsnapshot : p.snapshot = snapshot := h.fetched _ hp.fetched
  have hevaluated : strategy.evaluate snapshot = .ok p.signal := by
    have hevaluated := hp.evaluated
    rwa [Attempt.cycleAt_strategy, h.strategy_eq, hsnapshot] at hevaluated
  refine ⟨⟨p.signal, hevaluated, haction⟩, ?_⟩
  rw [hid, hp.cycleId_eq, hsnapshot]
  rfl

namespace Market

/-- The orders of a bar that the venue executed. -/
def executedFor (m : Market) (bar : String) : List VenueOrder :=
  m.book.filter fun v => v.request.clientOrderId = orderId bar .buy ∨
    v.request.clientOrderId = orderId bar .sell

/-- The venue executed at most one order of a bar, and the tables carry it. -/
def Kept (m : Market) (bar symbol : String) (before : ℚ) : Prop :=
  (m.executedFor bar).length ≤ 1 ∧ ∀ v ∈ m.executedFor bar, m.tables.Carries symbol before v

/-- Nothing fails after the venue executed the order of an attempt, if it did. -/
def Records (m : Market) (a : Attempt) : Prop :=
  ∀ p intent execution, m.Executes a p intent execution .default →
    a.Records m p intent execution

/-- How far the order of a bar has come: the venue has not executed it and the tables have no
    fill of it; the tables have an order that the venue did not execute; they carry what it
    executed; or they do not have what it executed. -/
inductive Tracked (strategy : Strategy) (snapshot : MarketSnapshot) (symbol : String)
    (before : ℚ) (m : Market) : Prop
  | pending : m.executedFor (buildCycleId snapshot) = [] →
      m.tables.Untouched (buildCycleId snapshot) symbol before →
      Tracked strategy snapshot symbol before m
  | closed {side : OrderSide} :
      m.executedFor (buildCycleId snapshot) = [] → strategy.Asks snapshot side →
      m.tables.alreadyExecuted (orderId (buildCycleId snapshot) side) = true →
      Tracked strategy snapshot symbol before m
  | carried {v : VenueOrder} {side : OrderSide} :
      m.executedFor (buildCycleId snapshot) = [v] → strategy.Asks snapshot side →
      v.request.clientOrderId = orderId (buildCycleId snapshot) side →
      m.tables.Carries symbol before v → Tracked strategy snapshot symbol before m
  | lost {v : VenueOrder} {side : OrderSide} :
      m.executedFor (buildCycleId snapshot) = [v] → strategy.Asks snapshot side →
      v.request.clientOrderId = orderId (buildCycleId snapshot) side →
      ¬m.tables.FilledAs v → Tracked strategy snapshot symbol before m

section Step

variable {m : Market} {a : Attempt} {strategy : Strategy} {snapshot : MarketSnapshot}
  {symbol bar : String} {before : ℚ} {v : VenueOrder} {side : OrderSide}

/-- Nothing is lost where the venue executed nothing. -/
theorem kept_of_nil (hnone : m.executedFor bar = []) : m.Kept bar symbol before := by
  simp [Kept, hnone]

/-- One executed order is kept exactly where its fill is carried. -/
theorem kept_singleton_iff (hone : m.executedFor bar = [v]) :
    m.Kept bar symbol before ↔ m.tables.Carries symbol before v := by
  simp [Kept, hone]

/-- An order is not kept when its fill is not in the tables. -/
theorem not_kept_of_lost (hone : m.executedFor bar = [v]) (hlost : ¬m.tables.FilledAs v) :
    ¬m.Kept bar symbol before := fun hkept =>
  hlost ((kept_singleton_iff hone).mp hkept).filledAs

/-- An order booked under the id of a bar and a side is one more of the bar. -/
private theorem executedFor_append {m' : Market} (hbook : m'.book = m.book ++ [v])
    (hid : v.request.clientOrderId = orderId bar side) :
    m'.executedFor bar = m.executedFor bar ++ [v] := by
  rw [executedFor, hbook, List.filter_append]
  congr 1
  refine List.filter_eq_self.mpr fun w hw => ?_
  rw [List.mem_singleton.mp hw]
  cases side with
  | buy => exact decide_eq_true (.inl hid)
  | sell => exact decide_eq_true (.inr hid)

/-- While the venue executes nothing and no fill is booked, the order stays as far as it has
    come. -/
private theorem Tracked.quiet {m' : Market} (h : Tracked strategy snapshot symbol before m)
    (hbook : m'.book = m.book) (hsame : m.tables.SameFills symbol m'.tables) :
    Tracked strategy snapshot symbol before m' ∧
      (m'.Kept (buildCycleId snapshot) symbol before ↔
        m.Kept (buildCycleId snapshot) symbol before) := by
  have hexecuted : m'.executedFor (buildCycleId snapshot) =
      m.executedFor (buildCycleId snapshot) := by rw [executedFor, hbook]; rfl
  -- in each case the tables keep what the case says of them
  cases h with
  | pending hnone huntouched =>
    have hnone' := hexecuted.trans hnone
    exact ⟨.pending hnone' (huntouched.mono hsame),
      iff_of_true (kept_of_nil hnone') (kept_of_nil hnone)⟩
  | closed hnone hasks hknown =>
    have hnone' := hexecuted.trans hnone
    exact ⟨.closed hnone' hasks (hsame.alreadyExecuted hknown),
      iff_of_true (kept_of_nil hnone') (kept_of_nil hnone)⟩
  | carried hone hasks hid hcarries =>
    have hone' := hexecuted.trans hone
    have hcarries' := hcarries.mono hsame
    exact ⟨.carried hone' hasks hid hcarries', iff_of_true
      ((kept_singleton_iff hone').mpr hcarries') ((kept_singleton_iff hone).mpr hcarries)⟩
  | lost hone hasks hid hlost =>
    have hone' := hexecuted.trans hone
    have hlost' := hsame.filledAs_iff.not.mpr hlost
    exact ⟨.lost hone' hasks hid hlost',
      iff_of_false (not_kept_of_lost hone' hlost') (not_kept_of_lost hone hlost)⟩

/-- A new order of a bar is sent only while the venue has executed none and the tables have
    none: an earlier one would have the same id. -/
private theorem Tracked.pending_of_sendsNew (hon : a.On strategy symbol snapshot)
    (h : Tracked strategy snapshot symbol before m) {p : Prepared} {intent : OrderIntent}
    (hsends : m.SendsNew a p intent .default) :
    m.executedFor (buildCycleId snapshot) = [] ∧
      m.tables.Untouched (buildCycleId snapshot) symbol before := by
  obtain ⟨hasks, hid⟩ := hon.clientOrderId_eq hsends.prepared hsends.intent_eq
  -- the venue would know an order of the same bar and side
  have hother : ∀ {w side}, m.executedFor (buildCycleId snapshot) = [w] →
      strategy.Asks snapshot side →
      w.request.clientOrderId = orderId (buildCycleId snapshot) side → False := by
    intro w side hone hasks' hid'
    have hw : w ∈ m.executedFor (buildCycleId snapshot) := by simp [hone]
    cases hasks.unique hasks'
    exact hsends.new w (List.mem_filter.mp hw).1 (hid'.trans hid.symm)
  cases h with
  | pending hnone huntouched => exact ⟨hnone, huntouched⟩
  | closed _ hasks' hknown =>
    cases hasks.unique hasks'
    rw [← hid, hsends.unknown] at hknown
    cases hknown
  | carried hone hasks' hid' => exact (hother hone hasks' hid').elim
  | lost hone hasks' hid' => exact (hother hone hasks' hid').elim

/-- An attempt keeps track of the order, and it keeps the order if it was kept so far and if
    nothing fails after the venue executed it. -/
theorem Tracked.attempt (hon : a.On strategy symbol snapshot)
    (h : Tracked strategy snapshot symbol before m) :
    Tracked strategy snapshot symbol before (m.attempt a .default) ∧
      ((m.attempt a .default).Kept (buildCycleId snapshot) symbol before ↔
        m.Kept (buildCycleId snapshot) symbol before ∧ m.Records a) := by
  obtain rfl := hon.symbol_eq
  rcases m.attempt_effect a with ⟨hnone, hbook, hquiet⟩ |
    ⟨p, intent, execution, hexec, hbook, heffect⟩
  · have hrecords : m.Records a := fun p intent execution hexec =>
      absurd hexec (hnone p intent execution)
    rw [and_iff_left hrecords]
    rcases hquiet with hsame | ⟨p, intent, hsends, hknown⟩
    · exact h.quiet hbook hsame
    · -- the venue has reported a fill that it did not execute
      obtain ⟨hasks, hid⟩ := hon.clientOrderId_eq hsends.prepared hsends.intent_eq
      obtain ⟨hbefore, -⟩ := h.pending_of_sendsNew hon hsends
      have hafter : (m.attempt a .default).executedFor (buildCycleId snapshot) = [] := by
        rw [executedFor, hbook]
        exact hbefore
      exact ⟨.closed hafter hasks (hid ▸ hknown),
        iff_of_true (kept_of_nil hafter) (kept_of_nil hbefore)⟩
  · obtain ⟨hasks, hid⟩ := hon.clientOrderId_eq hexec.prepared hexec.intent_eq
    obtain ⟨hnone, huntouched⟩ := h.pending_of_sendsNew hon hexec.toSendsNew
    have hone : (m.attempt a .default).executedFor (buildCycleId snapshot) =
        [⟨CcxtSandboxExchange.request intent, execution⟩] := by
      rw [executedFor_append hbook hid, hnone]
      rfl
    -- from here on the order is lost for good, or the tables carry it for good
    rcases heffect fun f hf => hid ▸ huntouched.fills f hf intent.side with
      ⟨hfailed, hlost⟩ | ⟨hrecords, hcarries⟩
    · refine ⟨.lost hone hasks hid hlost, iff_of_false (not_kept_of_lost hone hlost) ?_⟩
      exact fun hkept => hfailed (hkept.2 p intent execution hexec)
    · have hcarries' := huntouched.held ▸ hcarries
      refine ⟨.carried hone hasks hid hcarries', iff_of_true
        ((kept_singleton_iff hone).mpr hcarries') ⟨kept_of_nil hnone, fun q i e hexec' => ?_⟩⟩
      obtain ⟨rfl, rfl, rfl⟩ := hexec.unique hexec'
      exact hrecords

end Step

end Market

/-- Some run has committed a decision for a bar. -/
def Market.Decided (m : Market) (bar : String) : Prop :=
  ∃ row ∈ m.tables.signals, row.cycleId = bar

/-- However often a job is retried on one snapshot, wherever its runs die and whatever the
    venue answers: once a decision is committed, the tables carry what the venue executed
    exactly when in no run anything fails after the venue executed its order. -/
theorem fill_kept_iff_records {strategy : Strategy} {snapshot : MarketSnapshot} {symbol : String}
    {start m : Market} {attempts : List Attempt}
    (hon : ∀ a ∈ attempts, a.On strategy symbol snapshot)
    (hbook : start.executedFor (buildCycleId snapshot) = [])
    (hfills : ∀ f ∈ start.tables.fills, ∀ side,
      f.clientOrderId ≠ orderId (buildCycleId snapshot) side)
    (hrun : Runs (fun m a m' => Market.Tries m a m' .default) start attempts m) :
    m.Decided (buildCycleId snapshot) →
      (m.Kept (buildCycleId snapshot) symbol (start.tables.heldQuantity symbol) ↔
        Runs (fun m a m' => Market.Tries m a m' .default ∧ m.Records a) start attempts m) := by
  intro _
  -- an order that is lost stays lost, so the runs can be looked at one by one
  refine hrun.keeps_iff (I := Market.Tracked strategy snapshot symbol _)
    (P := fun m => m.Kept (buildCycleId snapshot) symbol _) (.pending hbook ⟨hfills, rfl⟩)
    (Market.kept_of_nil hbook) ?_ ?_ ?_
  · rintro t a _ ha ht rfl
    exact (ht.attempt (hon a ha)).1
  · rintro t a _ ha ht hkept rfl
    rw [(ht.attempt (hon a ha)).2]
    exact and_iff_right hkept
  · rintro t a _ ha ht rfl hkept
    exact ((ht.attempt (hon a ha)).2.mp hkept).1

/-! ## A retry after a crash -/

/-- A run on the bar at noon against a venue that fills every order at 100. -/
def sandboxRun (clock : Instant) (diesAt : Option CrashPoint) : Attempt where
  cycle := buildCycle ((flatMarket 100 0 0).gateway noon noon) (fixedStrategy .buy (1 / 2))
    defaultLimits 10000 clock
  executes order := some ⟨order.amount, 100, 0⟩
  answer order := .ok ⟨some "venue-1", some "closed", some order.amount, some 100, none, none⟩
  repeated := ⟨"InvalidOrder", "duplicate clientOrderId"⟩
  answeredAt := clock
  diesAt := diesAt

/-- The market before the bar. -/
def freshMarket : Market := ⟨Database.empty, []⟩

/-- The runs are on one snapshot, whatever their clocks are and wherever they die. -/
private theorem sandboxRun_on : ∃ snapshot, buildCycleId snapshot = "BTCUSDT-15m-1767267900" ∧
    ∀ clock diesAt,
      (sandboxRun clock diesAt).On (fixedStrategy .buy (1 / 2)) "BTC/USDT" snapshot := by
  have hbar : (((flatMarket 100 0 0).gateway noon noon).fetchSnapshot "BTC/USDT" "15m"
      9).toOption.any (fun s => buildCycleId s = "BTCUSDT-15m-1767267900") = true := by
    decide +kernel
  obtain ⟨snapshot, hfetch, hid⟩ := Except.exists_of_any hbar
  exact ⟨snapshot, of_decide_eq_true hid, fun clock diesAt =>
    ⟨rfl, rfl, fun fetched h => (Except.ok.inj (hfetch.symm.trans h)).symm⟩⟩

/-- A run and a retry that finds its order. -/
def ranThenRetried : List Attempt :=
  [sandboxRun noon none, sandboxRun (noon + 60000000) none]

/-- The tables carry what the venue executed, so in neither run anything failed. -/
theorem fill_kept_iff_records_ranThenRetried : ∃ m,
    Runs (fun m a m' => Market.Tries m a m' .default ∧ m.Records a) freshMarket
        ranThenRetried m ∧
      m.book.map (·.execution) = [⟨5, 100, 0⟩] := by
  obtain ⟨snapshot, hid, hon⟩ := sandboxRun_on
  have hrun : Runs (fun m a m' => Market.Tries m a m' .default) freshMarket ranThenRetried
      (ranThenRetried.foldl (fun m a => m.attempt a .default) freshMarket) :=
    Runs.foldl_eq.mpr rfl
  -- where the two runs lead, by evaluation
  have hend : let m := ranThenRetried.foldl (fun m a => m.attempt a .default) freshMarket
      (∃ row ∈ m.tables.signals, row.cycleId = "BTCUSDT-15m-1767267900") ∧
        m.book = [⟨⟨"BTC/USDT", "buy", 5, "BTCUSDT-15m-1767267900-buy"⟩, ⟨5, 100, 0⟩⟩] ∧
        m.tables.fills = [recordFill ⟨"BTCUSDT-15m-1767267900-buy", "BTC/USDT", .buy, 5, 100, 0,
          noon, by decide, by decide, by decide +kernel⟩] ∧
        (∃ row ∈ m.tables.orders, row.clientOrderId = "BTCUSDT-15m-1767267900-buy" ∧
          row.status ≠ .rejected ∧ row.side = .buy) ∧
        m.tables.heldQuantity "BTC/USDT" = 5 := by
    decide +kernel
  generalize ranThenRetried.foldl (fun m a => m.attempt a .default) freshMarket = m at hrun hend
  obtain ⟨hdecided, hbook, hfills, ⟨row, hrow, hrowid, hstatus, hside⟩, hheld⟩ := hend
  -- the order is carried by its rows
  have hkept : m.Kept "BTCUSDT-15m-1767267900" "BTC/USDT" 0 := by
    have hone : m.executedFor "BTCUSDT-15m-1767267900" =
        [⟨⟨"BTC/USDT", "buy", 5, "BTCUSDT-15m-1767267900-buy"⟩, ⟨5, 100, 0⟩⟩] := by
      rw [Market.executedFor, hbook]
      decide +kernel
    refine (Market.kept_singleton_iff hone).mpr
      ⟨row, hrow, ⟨"BTCUSDT-15m-1767267900-buy", "BTC/USDT", .buy, 5, 100, 0, noon, by decide,
        by decide, by decide +kernel⟩, hrowid, hstatus, hside, rfl, ?_, ?_, ?_⟩
    · rw [hfills]
      rfl
    · exact ⟨by decide +kernel, by decide +kernel, by decide +kernel⟩
    · rw [hheld]
      decide +kernel
  have hall : ∀ a ∈ ranThenRetried, a.On (fixedStrategy .buy (1 / 2)) "BTC/USDT" snapshot := by
    simp only [ranThenRetried, List.forall_mem_cons]
    exact ⟨hon _ _, hon _ _, nofun⟩
  have hiff := fill_kept_iff_records hall rfl (fun _ h => absurd h List.not_mem_nil) hrun
  rw [hid] at hiff
  exact ⟨m, (hiff hdecided).mp hkept, by rw [hbook]; rfl⟩

/-- A run that dies once its order is out, and its retry. -/
def crashedThenRetried : List Attempt :=
  [sandboxRun noon (some .beforeCommit), sandboxRun (noon + 60000000) none]

/-- The venue has bought 5, and the tables have a rejected order and a position of zero. -/
theorem crashedThenRetried_loses_fill :
    (∃ snapshot, buildCycleId snapshot = "BTCUSDT-15m-1767267900" ∧ ∀ a ∈ crashedThenRetried,
      a.On (fixedStrategy .buy (1 / 2)) "BTC/USDT" snapshot) ∧
    ∃ m, Runs (fun m a m' => Market.Tries m a m' .default) freshMarket crashedThenRetried m ∧
      m.Decided "BTCUSDT-15m-1767267900" ∧
      m.book.map (·.execution) = [⟨5, 100, 0⟩] ∧
      m.tables.orders.map (·.status) = [.rejected] ∧ m.tables.fills = [] ∧
      (m.tables.positions "BTC/USDT").map (·.quantity.toRat) = some 0 ∧
      ¬m.Kept "BTCUSDT-15m-1767267900" "BTC/USDT" 0 := by
  constructor
  · obtain ⟨snapshot, hid, hon⟩ := sandboxRun_on
    refine ⟨snapshot, hid, ?_⟩
    simp only [crashedThenRetried, List.forall_mem_cons]
    exact ⟨hon _ _, hon _ _, nofun⟩
  · have hrun : Runs (fun m a m' => Market.Tries m a m' .default) freshMarket crashedThenRetried
        (crashedThenRetried.foldl (fun m a => m.attempt a .default) freshMarket) :=
      Runs.foldl_eq.mpr rfl
    -- the crashed run leaves nothing but the book, and the retry is refused by the venue
    have hlost : let m := crashedThenRetried.foldl (fun m a => m.attempt a .default) freshMarket
        (∃ row ∈ m.tables.signals, row.cycleId = "BTCUSDT-15m-1767267900") ∧
          m.book = [⟨⟨"BTC/USDT", "buy", 5, "BTCUSDT-15m-1767267900-buy"⟩, ⟨5, 100, 0⟩⟩] ∧
          m.tables.orders.map (·.status) = [.rejected] ∧ m.tables.fills = [] ∧
          (m.tables.positions "BTC/USDT").map (·.quantity.toRat) = some 0 := by
      decide +kernel
    generalize crashedThenRetried.foldl (fun m a => m.attempt a .default) freshMarket = m
      at hrun hlost
    obtain ⟨hdecided, hbook, horders, hfills, hrow⟩ := hlost
    refine ⟨m, hrun, hdecided, by rw [hbook]; rfl, horders, hfills, hrow, fun hkept => ?_⟩
    have hone : m.executedFor "BTCUSDT-15m-1767267900" = m.book := by
      rw [Market.executedFor, hbook]
      decide +kernel
    have hcarries := hkept.2 _ (by rw [hone, hbook]; exact List.mem_singleton_self _)
    obtain ⟨row, hfill, -⟩ := hcarries.filledAs
    simp [hfills] at hfill

end TradingBot
