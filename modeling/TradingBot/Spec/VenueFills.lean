import TradingBot.Exchange.CcxtSandbox
import TradingBot.Spec.DecimalLedger

/-!
# Fills the venue reports

The gateway makes a fill of an answer that has a positive price and no negative fee. Such a
fill can be folded into the account its order was approved on, and the cycle commits it, unless
a column is too narrow for what it writes. An answer without a price is recorded as a rejection,
and one with a price or a fee that the domain model refuses ends the cycle, although the venue
executed the order. The ledger computes with the 28 digits of the default context.
-/

namespace TradingBot

open FixedPoint

namespace CcxtSandboxExchange

variable {createOrder : CreateOrder → Except ClientError OrderResponse} {clock : Instant}
  {intent : OrderIntent} {response : OrderResponse} {filled : ℚ}

/-- The price of the answer is there and positive, and its fee is not negative. -/
structure Decodes (response : OrderResponse) : Prop where
  price : ∃ price, response.executedPrice = some price ∧ 0 < price
  feeQuote : 0 ≤ response.feeCost.getD 0

/-- A fill is determined by the answer it was made of and the moment. -/
theorem Reports.unique {response : OrderResponse} {fill fill' : Fill}
    (h : Reports response intent fill) (h' : Reports response intent fill')
    (hat : fill.filledAt = fill'.filledAt) : fill = fill' := by
  have hid := h.clientOrderId.trans h'.clientOrderId.symm
  have hsymbol := h.symbol.trans h'.symbol.symm
  have hside := h.side.trans h'.side.symm
  have hqty := h.quantity.trans h'.quantity.symm
  have hprice : fill.price = fill'.price := Option.some.inj (h.price.symm.trans h'.price)
  have hfee := h.feeQuote.trans h'.feeQuote.symm
  cases fill
  cases fill'
  simp_all

/-- An answer that decodes becomes one fill. -/
theorem exists_fill_of_decodes (hanswer : createOrder (request intent) = .ok response)
    (hexecuted : response.Executed) (hdecodes : Decodes response) :
    ∃ e fill, submit createOrder clock intent = .ok e ∧ e.fills = [fill] ∧
      Reports response intent fill := by
  obtain ⟨price, hprice, hpos⟩ := hdecodes.price
  obtain ⟨e, he⟩ := (exists_submit_iff hanswer hexecuted hprice).mpr ⟨hpos, hdecodes.feeQuote⟩
  refine ⟨e, ?_⟩
  rcases submit_ok he with ⟨-, hnone⟩ | ⟨response', fill, hanswer', -, hfills, -, hreports⟩
  · rw [hnone response hanswer hexecuted] at hprice
    cases hprice
  · cases hanswer.symm.trans hanswer'
    exact ⟨fill, he, hfills, hreports⟩

/-- An execution that has a fill was made of an answer that decodes. -/
theorem decodes_of_fills (hanswer : createOrder (request intent) = .ok response)
    {e : OrderExecution} (he : submit createOrder clock intent = .ok e) (hfills : e.fills ≠ []) :
    Decodes response ∧ ∃ fill, e.fills = [fill] ∧ Reports response intent fill := by
  rcases submit_ok he with ⟨hnone, -⟩ | ⟨response', fill, hanswer', -, hfills, -, hreports⟩
  · exact absurd hnone hfills
  · cases hanswer.symm.trans hanswer'
    exact ⟨⟨⟨fill.price, hreports.price, fill.price_pos⟩,
      hreports.feeQuote ▸ fill.feeQuote_nonneg⟩, fill, hfills, hreports⟩

/-- One fill is all that was filled, but for the digits of the context. -/
theorem filledQuantityIn_singleton {e : OrderExecution} {fill : Fill} (h : e.fills = [fill]) :
    e.filledQuantityIn .default = rounded fill.quantity := by
  unfold OrderExecution.filledQuantityIn sumIn
  rw [h, List.map_singleton, List.foldl_cons, List.foldl_nil]
  change rounded (0 + fill.quantity) = _
  rw [zero_add]

/-- An order is folded with what the venue filled exactly when its answer decodes, the filled
    quantity has no more digits than the context, and the order is of the symbol that is held
    and, for a sale, filled with no more than that. -/
theorem exists_folded_iff {cash : ℚ} {position : Position}
    (hanswer : createOrder (request intent) = .ok response)
    (hresponse : response.filled = some filled) (hfilled : 0 < filled) :
    (∃ e, submit createOrder clock intent = .ok e ∧ e.filledQuantityIn .default = filled ∧
        ∃ u, applyExecutionIn .default cash position e = .ok u) ↔
      Decodes response ∧ rounded filled = filled ∧ intent.symbol = position.symbol ∧
        (intent.side = .sell → filled ≤ position.quantity) := by
  have hquantity : response.filled.getD 0 = filled := by rw [hresponse, Option.getD_some]
  -- an execution that is folded has one fill, whose sides are those of the position
  constructor
  · rintro ⟨e, he, hqty, u, hfold⟩
    have hsome : e.fills ≠ [] := by
      intro hnone
      unfold OrderExecution.filledQuantityIn at hqty
      rw [hnone] at hqty
      exact hfilled.ne hqty
    obtain ⟨hdecodes, fill, hfills, hreports⟩ := decodes_of_fills hanswer he hsome
    obtain ⟨hsymbol, hcovered⟩ := applyExecutionIn_covered hfills hfold
    have hsame : fill.quantity = filled := hreports.quantity.trans hquantity
    rw [filledQuantityIn_singleton hfills, hsame] at hqty
    exact ⟨hdecodes, hqty, hreports.symbol ▸ hsymbol,
      fun hsell => hsame ▸ hcovered (hreports.side.trans hsell)⟩
  · rintro ⟨hdecodes, hdigits, hsymbol, hcovered⟩
    have hexecuted : response.Executed := by
      rw [OrderResponse.Executed, hquantity]
      exact hfilled
    obtain ⟨e, fill, he, hfills, hreports⟩ :
        ∃ e fill, submit createOrder clock intent = .ok e ∧ e.fills = [fill] ∧
          Reports response intent fill := exists_fill_of_decodes hanswer hexecuted hdecodes
    have hsame : fill.quantity = filled := hreports.quantity.trans hquantity
    refine ⟨e, he, by rw [filledQuantityIn_singleton hfills, hsame, hdigits], ?_⟩
    exact exists_applyExecutionIn hfills (hreports.symbol.trans hsymbol) fun hsell =>
      hsame ▸ hcovered (hreports.side ▸ hsell)

end CcxtSandboxExchange

/-! ## Committing what was filled -/

/-- What a cycle writes and reports of an execution that is folded: the columns take its rows,
    and telemetry what it is told. -/
structure TradingCycle.TakesExecution (c : TradingCycle) (db : Database) (p : Prepared)
    (execution : OrderExecution) : Prop where
  latency : c.telemetry.recordOrderLatency c.symbol execution.intent.side = .ok ()
  order : StoresOrder p execution
  account : ∀ u, applyExecutionIn .default p.account.cashQuote p.account.position execution =
    .ok u → (c.pending p (c.settle db (executedAs p execution u)) .default).storable = true
  reports : ∀ u, applyExecutionIn .default p.account.cashQuote p.account.position execution =
    .ok u → c.telemetry.Takes c.symbol .submit
      (equityIn .default u.cashQuote u.position p.markPrice) p.account.dayOpeningEquity .default

/-- The tables have one fill more, of an order and exactly a quantity. -/
def Database.AddsFill (db db' : Database) (clientOrderId : String) (quantity : ℚ) : Prop :=
  ∃ row, db'.fills = db.fills ++ [row] ∧ row.clientOrderId = clientOrderId ∧
    row.quantity.toRat = quantity

namespace TradingCycle

variable {c : TradingCycle} {db db' : Database} {p : Prepared} {intent : OrderIntent}
  {execution : OrderExecution}

/-- A run that commits with a new order has sent it, and has the fills of its execution in
    the tables. -/
theorem exists_sends_of_outcome {r : CycleResult} (hp : c.Prepares db p .default)
    (hintent : p.decision.intent = some intent)
    (hnew : db.alreadyExecuted intent.clientOrderId = false)
    (hok : (c.outcome db .default).1 = .ok (r, db')) :
    ∃ x, c.Sends p intent x .default ∧
      db'.fills = db.fills ++ x.execution.fills.map recordFill ∧
      c.telemetry.Takes c.symbol .submit (equityIn .default x.cash x.position p.markPrice)
        p.account.dayOpeningEquity .default ∧
      (c.pending p (c.settle db x) .default).storable = true := by
  have houtcome : p.decision.outcome = .submit :=
    p.decision.intent_matches.mpr (by simp [hintent])
  have hrun : c.outcome db .default = (.ok (r, db'), (c.outcome db .default).2) := Prod.ext hok rfl
  -- a cycle that commits a new order has sent it
  obtain ⟨q, s, hcommits, -⟩ := outcome_ok hrun
  cases hcommits.prepared.unique hp
  have hfills : db'.fills = db.fills ++ s.fills := by
    rw [hcommits.tables, Transaction.applyTo_fills, pending_fills]
  have htakes := (exists_outcome_iff hp hcommits.settled).mp ⟨r, db', hok⟩
  rw [houtcome] at htakes
  have hsettled := hcommits.settled
  generalize (c.outcome db .default).2 = sent at hsettled
  cases hsettled with
  | held hnone => cases hintent.symm.trans hnone
  | suppressed hi hknown =>
    cases hintent.symm.trans hi
    cases hnew.symm.trans hknown
  | @sent _ i x hi _ hsends =>
    cases hintent.symm.trans hi
    have hrows : x.fills = x.execution.fills.map recordFill :=
      (congrArg Prod.snd hsends.recorded).symm
    exact ⟨x, hsends, hrows ▸ hfills, htakes⟩

/-- A cycle whose new order is answered commits exactly when the answer can be folded, written
    and reported. -/
theorem exists_outcome_of_answer_iff (hp : c.Prepares db p .default)
    (hintent : p.decision.intent = some intent)
    (hnew : db.alreadyExecuted intent.clientOrderId = false)
    (hanswer : c.gateway.submit intent = .ok execution) :
    (∃ r db', (c.outcome db .default).1 = .ok (r, db') ∧
        db'.fills = db.fills ++ execution.fills.map recordFill) ↔
      (∃ u, applyExecutionIn .default p.account.cashQuote p.account.position execution = .ok u) ∧
        c.TakesExecution db p execution := by
  have hsame : execution.intent = intent := c.gateway.submit_intent _ _ hanswer
  have houtcome : p.decision.outcome = .submit :=
    p.decision.intent_matches.mpr (by simp [hintent])
  constructor
  · rintro ⟨r, db', hok, -⟩
    obtain ⟨x, hsends, -, htakes, hstored⟩ := exists_sends_of_outcome hp hintent hnew hok
    cases hsends.answered.symm.trans hanswer
    obtain ⟨fees, hfold⟩ := hsends.foldedIn
    -- what was sent is what the answer is folded to
    have hx : executedAs p x.execution ⟨x.cash, x.position, fees⟩ = x := by
      have hrecorded := hsends.recorded
      unfold executedAs
      rw [hrecorded]
    refine ⟨⟨_, hfold⟩, hsame ▸ hsends.measured, ?_, fun u hu => ?_, fun u hu => ?_⟩
    · unfold StoresOrder
      rw [hsends.recorded]
      exact hsends.stored
    · cases hfold.symm.trans hu
      rw [hx]
      exact hstored
    · cases hfold.symm.trans hu
      exact htakes
  · rintro ⟨⟨u, hfold⟩, htakes⟩
    have hsends : c.Sends p intent (executedAs p execution u) .default :=
      c.sends_executedAs hanswer (hsame ▸ htakes.latency) hfold htakes.order
    obtain ⟨r, db', hok⟩ := (exists_outcome_iff hp (.sent hintent hnew hsends)).mpr
      ⟨houtcome ▸ htakes.reports u hfold, htakes.account u hfold⟩
    obtain ⟨x, hsends', hrows, -⟩ := exists_sends_of_outcome hp hintent hnew hok
    cases hsends'.answered.symm.trans hanswer
    exact ⟨r, db', hok, hrows⟩

end TradingCycle

namespace CcxtSandboxExchange

variable {createOrder : CreateOrder → Except ClientError OrderResponse} {clock : Instant}
  {intent : OrderIntent} {response : OrderResponse} {filled : ℚ} {c : TradingCycle}
  {db : Database} {p : Prepared}

/-- A cycle whose order the venue filled commits the fill exactly when the answer decodes, the
    order is of the symbol of the cycle and covered, the filled quantity has no more decimals
    than its column, and the rest can be written and reported. -/
theorem exists_addsFill_iff (hgateway : c.gateway.submit = submit createOrder clock)
    (hanswer : createOrder (request intent) = .ok response)
    (hresponse : response.filled = some filled) (hfilled : 0 < filled)
    (hp : c.Prepares db p .default) (hintent : p.decision.intent = some intent)
    (hnew : db.alreadyExecuted intent.clientOrderId = false) :
    (∃ r db', (c.outcome db .default).1 = .ok (r, db') ∧
        db.AddsFill db' intent.clientOrderId filled) ↔
      Decodes response ∧ intent.symbol = c.symbol ∧
        (intent.side = .sell → filled ≤ db.heldQuantity c.symbol) ∧ filled ∈ Grid ℚ 18 ∧
        ∀ fill, Reports response intent fill → fill.filledAt = clock →
          c.TakesExecution db p (filledExecution intent response fill) := by
  obtain ⟨-, hheldSymbol, hheld, -⟩ := hp.loaded_eq
  have hquantity : response.filled.getD 0 = filled := by rw [hresponse, Option.getD_some]
  have hexecuted : response.Executed := by
    rw [OrderResponse.Executed, hquantity]
    exact hfilled
  rw [← hheld, ← hheldSymbol]
  constructor
  · rintro ⟨r, db', hok, row, hrow, -, hstored⟩
    -- the fill row came from an answer that decoded and was folded and stored
    obtain ⟨x, hsends, hrows, -⟩ := TradingCycle.exists_sends_of_outcome hp hintent hnew hok
    have hsome : x.execution.fills ≠ [] := by
      intro hnone
      simp [hnone, hrow] at hrows
    have hanswered : submit createOrder clock intent = .ok x.execution :=
      hgateway ▸ hsends.answered
    obtain ⟨hdecodes, fill, hfills, hreports⟩ := decodes_of_fills hanswer hanswered hsome
    obtain ⟨hexecution, hat⟩ := eq_filledExecution hanswer hanswered hfills
    obtain ⟨⟨u, hfold⟩, htakes⟩ := (TradingCycle.exists_outcome_of_answer_iff hp hintent hnew
      hsends.answered).mp ⟨r, db', hok, hrows⟩
    obtain ⟨hsymbol, hcovered⟩ := applyExecutionIn_covered hfills hfold
    have hsame : fill.quantity = filled := hreports.quantity.trans hquantity
    refine ⟨hdecodes, hreports.symbol ▸ hsymbol,
      fun hsell => hsame ▸ hcovered (hreports.side.trans hsell), ?_, ?_⟩
    · -- the row gives back what was filled only if the column kept all of it
      rw [hrows, hfills, List.map_singleton] at hrow
      have hrow : recordFill fill = row := List.singleton_inj.mp (List.append_cancel_left hrow)
      rw [← hstored, ← hrow]
      exact Numeric.toRat_mem _
    · intro fill' hreports' hat'
      obtain rfl : fill' = fill := hreports'.unique hreports (hat'.trans hat.symm)
      exact hexecution ▸ htakes
  · rintro ⟨hdecodes, hsymbol, hcovered, hdecimals, htakes⟩
    obtain ⟨e, fill, he, hfills, hreports⟩ :
        ∃ e fill, submit createOrder clock intent = .ok e ∧ e.fills = [fill] ∧
          Reports response intent fill := exists_fill_of_decodes hanswer hexecuted hdecodes
    obtain ⟨hexecution, hat⟩ := eq_filledExecution hanswer he hfills
    have hsame : fill.quantity = filled := hreports.quantity.trans hquantity
    -- the position covers the fill, so it is folded
    have hfold : ∃ u,
        applyExecutionIn .default p.account.cashQuote p.account.position e = .ok u :=
      exists_applyExecutionIn hfills (hreports.symbol.trans hsymbol) fun hsell =>
        hsame ▸ hcovered (hreports.side ▸ hsell)
    obtain ⟨r, db', hok, hrows⟩ := (TradingCycle.exists_outcome_of_answer_iff hp hintent hnew
      (hgateway ▸ he)).mpr ⟨hfold, hexecution ▸ htakes fill hreports hat⟩
    refine ⟨r, db', hok, recordFill fill, by rw [hrows, hfills]; rfl, hreports.clientOrderId, ?_⟩
    exact (Numeric.toRat_ofRat_of_mem (hsame ▸ hdecimals)).trans hsame

/-- What the venue filled of an order is recorded exactly when the answer decodes, the order is
    of the symbol it is booked under and, for a sale, filled with no more than is held, and the
    filled quantity has no more digits than the context and the column: the execution has the
    filled quantity and can be folded into the account on which the order was approved, and
    the cycle that sent the order commits the fill unless its telemetry raises or a column does
    not take what it writes. -/
theorem fill_recorded_iff_decodes (hanswer : createOrder (request intent) = .ok response)
    (hresponse : response.filled = some filled) (hfilled : 0 < filled) :
    (∀ cash position,
        (∃ x, submit createOrder clock intent = .ok x ∧ x.filledQuantityIn .default = filled ∧
            ∃ u, applyExecutionIn .default cash position x = .ok u) ↔
          Decodes response ∧ rounded filled = filled ∧ intent.symbol = position.symbol ∧
            (intent.side = .sell → filled ≤ position.quantity)) ∧
      ∀ (c : TradingCycle) (db : Database) p,
        c.gateway.submit = submit createOrder clock → c.Prepares db p .default →
        p.decision.intent = some intent → db.alreadyExecuted intent.clientOrderId = false →
        ((∃ r db', (c.outcome db .default).1 = .ok (r, db') ∧
            db.AddsFill db' intent.clientOrderId filled) ↔
          Decodes response ∧ intent.symbol = c.symbol ∧
            (intent.side = .sell → filled ≤ db.heldQuantity c.symbol) ∧ filled ∈ Grid ℚ 18 ∧
            ∀ fill, Reports response intent fill → fill.filledAt = clock →
              c.TakesExecution db p (filledExecution intent response fill)) :=
  ⟨fun _ _ => exists_folded_iff hanswer hresponse hfilled, fun _ _ _ hgateway hp hintent hnew =>
    exists_addsFill_iff hgateway hanswer hresponse hfilled hp hintent hnew⟩

end CcxtSandboxExchange

/-! ## A fill without a price -/

/-- A venue that fills every order, with a price and a fee in its answer or without. -/
def fillingVenue (average feeCost : Option ℚ) (order : CreateOrder) :
    Except ClientError OrderResponse :=
  .ok ⟨some "venue-1", some "closed", some order.amount, average, none, feeCost⟩

/-- A cycle at noon that buys 5 in front of such a venue. -/
def fillingCycle (average feeCost : Option ℚ) : TradingCycle :=
  let gateway : Gateway :=
    { fetchSnapshot := ((flatMarket 100 0 0).gateway noon noon).fetchSnapshot
      submit := CcxtSandboxExchange.submit (fillingVenue average feeCost) noon
      submit_intent := fun _ _ => CcxtSandboxExchange.submit_intent }
  buildCycle gateway (fixedStrategy .buy (1 / 2)) defaultLimits 10000 noon

/-- The cycle buys five units under the id of its bar. -/
private theorem fillingCycle_prepares (average feeCost : Option ℚ) : ∃ p intent,
    (fillingCycle average feeCost).Prepares Database.empty p .default ∧
      p.decision.intent = some intent ∧ intent.quantity = 5 ∧
      intent.clientOrderId = "BTCUSDT-15m-1767267900-buy" := by
  -- nothing is asked of the venue before the order is sent
  have hsame : (fillingCycle average feeCost).prepare Database.empty .default =
      (fillingCycle none none).prepare Database.empty .default := by
    simp only [TradingCycle.prepare, fillingCycle, buildCycle]
  have hsome : ((fillingCycle none none).prepare Database.empty .default).toOption.any (fun p =>
      p.decision.intent.any fun i => i.quantity = 5 ∧
        i.clientOrderId = "BTCUSDT-15m-1767267900-buy") = true := by
    decide +kernel
  rw [← hsame] at hsome
  obtain ⟨p, hprepare, hany⟩ := Except.exists_of_any hsome
  obtain ⟨intent, hintent, htest⟩ := (Option.any_eq_true _ _).mp hany
  obtain ⟨hquantity, hid⟩ := of_decide_eq_true htest
  exact ⟨p, intent, TradingCycle.prepare_ok.mp hprepare, hintent, hquantity, hid⟩

/-- An answer with a price and no fee is recorded. -/
theorem fill_recorded_iff_decodes_priced : ∃ p intent response,
    (fillingCycle (some 100) none).Prepares Database.empty p .default ∧
      p.decision.intent = some intent ∧
      fillingVenue (some 100) none (CcxtSandboxExchange.request intent) = .ok response ∧
      CcxtSandboxExchange.Decodes response ∧ (5 : ℚ) ∈ Grid ℚ 18 ∧
      ∀ fill, CcxtSandboxExchange.Reports response intent fill → fill.filledAt = noon →
        (fillingCycle (some 100) none).TakesExecution Database.empty p
          (CcxtSandboxExchange.filledExecution intent response fill) := by
  obtain ⟨p, intent, hp, hintent, hquantity, hid⟩ := fillingCycle_prepares (some 100) none
  have hanswer : fillingVenue (some 100) none (CcxtSandboxExchange.request intent) =
      .ok ⟨some "venue-1", some "closed", some 5, some 100, none, none⟩ := by
    rw [← hquantity]
    rfl
  -- the run of the cycle, evaluated
  have hrun : ((fillingCycle (some 100) none).outcome Database.empty
      .default).1.toOption.any (fun out => out.2.fills.any fun row =>
        out.2.fills.length = 1 ∧ row.clientOrderId = "BTCUSDT-15m-1767267900-buy" ∧
          row.quantity.toRat = 5) = true := by
    decide +kernel
  obtain ⟨out, houtcome, hany⟩ := Except.exists_of_any hrun
  obtain ⟨row, hrow, htest⟩ := List.any_eq_true.mp hany
  obtain ⟨hlength, hrowid, hrowquantity⟩ := of_decide_eq_true htest
  have hadds : Database.empty.AddsFill out.2 intent.clientOrderId 5 := by
    obtain ⟨only, honly⟩ := List.length_eq_one_iff.mp hlength
    rw [honly] at hrow
    cases List.mem_singleton.mp hrow
    exact ⟨row, honly, hrowid.trans hid.symm, hrowquantity⟩
  obtain ⟨-, hcycle⟩ := CcxtSandboxExchange.fill_recorded_iff_decodes hanswer rfl
    (by decide : (0 : ℚ) < 5)
  obtain ⟨hdecodes, -, -, hdecimals, htakes⟩ := (hcycle (fillingCycle (some 100) none)
    Database.empty p rfl hp hintent rfl).mp ⟨out.1, out.2, houtcome, hadds⟩
  exact ⟨p, intent, _, hp, hintent, hanswer, hdecodes, hdecimals, htakes⟩

/-- The venue has bought 5 and does not say at what price: the cycle commits without a fill.
    Where it pays a rebate of 0.1, the cycle raises. -/
theorem fillingCycle_loses_fill : ∃ p intent response,
    (fillingCycle none none).Prepares Database.empty p .default ∧
      p.decision.intent = some intent ∧
      fillingVenue none none (CcxtSandboxExchange.request intent) = .ok response ∧
      response.filled = some intent.quantity ∧ intent.quantity = 5 ∧
      (∃ r db', ((fillingCycle none none).outcome Database.empty .default).1 = .ok (r, db') ∧
        db'.fills = []) ∧
      ∀ out, ((fillingCycle (some 100) (some (-1 / 10))).outcome Database.empty
        .default).1 ≠ .ok out := by
  obtain ⟨p, intent, hp, hintent, hquantity, -⟩ := fillingCycle_prepares none none
  refine ⟨p, intent, _, hp, hintent, rfl, rfl, hquantity, ?_, fun out hout => ?_⟩
  -- without a price the fill is taken as a rejection
  · have hlost : ((fillingCycle none none).outcome Database.empty .default).1.toOption.any
        (fun out => out.2.fills = []) = true := by
      decide +kernel
    obtain ⟨out, houtcome, htest⟩ := Except.exists_of_any hlost
    exact ⟨out.1, out.2, houtcome, of_decide_eq_true htest⟩
  -- with a rebate the fill is refused, and the cycle fails
  · have hraised : ((fillingCycle (some 100) (some (-1 / 10))).outcome
        Database.empty .default).1.toOption.isSome = false := by
      decide +kernel
    rw [hout] at hraised
    cases hraised

end TradingBot
