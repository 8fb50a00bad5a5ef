import TradingBot.Spec.LedgerConservation
import Mathlib.Tactic.LinearCombination

/-!
# Where the equity comes from

On the simulator the recorded equity is explained to the last digit by the other rows: it is
the initial cash, plus what the market moved on the quantity held from one snapshot to the
next, less what the orders cost. An order costs at least its fee, so the bot never does
better than the market did on what it held.

## Key results

- `Attributed.step`: a committed cycle keeps the equity explained
- `equity_attributed`: the result over every sequence of cycles
-/

namespace TradingBot

open FixedPoint

/-! ## Gains and costs -/

/-- What a price move gained on the quantity held until then. -/
def moveGain (row next : EquitySnapshotRecord) : ℚ :=
  row.positionQuantity.toRat * (next.markPrice.toRat - row.markPrice.toRat)

/-- What the market moved on the quantity held, from snapshot to snapshot. -/
def marketGain : List EquitySnapshotRecord → ℚ
  | row :: next :: rows => moveGain row next + marketGain (next :: rows)
  | _ => 0

/-- One more snapshot adds the gain of the move to it. -/
theorem marketGain_append {rows : List EquitySnapshotRecord} {last : EquitySnapshotRecord}
    (hlast : rows.getLast? = some last) (next : EquitySnapshotRecord) :
    marketGain (rows ++ [next]) = marketGain rows + moveGain last next := by
  induction rows with
  | nil => cases hlast
  | cons row rows ih =>
    cases rows with
    | nil =>
      cases hlast
      simp [marketGain]
    | cons other rows =>
      rw [List.getLast?_cons_cons] at hlast
      simp only [List.cons_append] at ih ⊢
      rw [marketGain, marketGain, ih hlast, add_assoc]

/-- What an order cost at its reference price: the fee, and what the price slipped. -/
def tradeCost (trade : OrderRecord × FillRecord) : ℚ :=
  let slipped := trade.2.price.toRat - trade.1.referencePrice.toRat
  trade.2.feeQuote.toRat + trade.2.quantity.toRat *
    match trade.2.side with
    | .buy => slipped
    | .sell => -slipped

namespace Database

/-- The committed orders with their fills. -/
def trades (db : Database) : List (OrderRecord × FillRecord) := db.orders.zip db.fills

end Database

/-- A trade of one order, which costs at least its fee. -/
structure Paid (trade : OrderRecord × FillRecord) : Prop where
  id : trade.2.clientOrderId = trade.1.clientOrderId
  fee_nonneg : 0 ≤ trade.2.feeQuote.toRat
  fee_le : trade.2.feeQuote.toRat ≤ tradeCost trade

/-- The equity is explained by the other rows. -/
structure Attributed (symbol : String) (initial : ℚ) (db : Database) : Prop where
  conserved : Conserved symbol initial db
  latest : db.latestSnapshotFor symbol = db.equitySnapshots.getLast?
  matched : db.orders.length = db.fills.length
  paid : ∀ trade ∈ db.trades, Paid trade
  equity : ∀ mark, db.loadCash symbol initial + db.heldQuantity symbol * mark =
    initial + marketGain db.equitySnapshots - (db.trades.map tradeCost).sum +
      match db.equitySnapshots.getLast? with
      | none => 0
      | some last => last.positionQuantity.toRat * (mark - last.markPrice.toRat)

/-- Empty tables have nothing to attribute. -/
theorem attributed_empty (symbol : String) (initial : ℚ) :
    Attributed symbol initial Database.empty where
  conserved := conserved_empty symbol initial
  latest := rfl
  matched := rfl
  paid _ htrade := absurd htrade List.not_mem_nil
  equity mark := by
    show initial + 0 * mark = initial + 0 - 0 + 0
    ring

/-! ## The fill price -/

namespace SimulatedExchange

variable {x : SimulatedExchange} {referencePrice : ℚ}

/-- The slippage is not negative. -/
private theorem slippage_nonneg (hslippage : 0 ≤ x.slippageBps) : 0 ≤ x.slippageBps / bps :=
  div_nonneg hslippage bps_pos.le

/-- A buy fills at the reference price or above. -/
theorem le_fillPrice_buy (hslippage : 0 ≤ x.slippageBps) (hpos : 0 < referencePrice)
    (hcents : referencePrice ∈ Grid ℚ priceDigits) :
    referencePrice ≤ x.fillPrice .buy referencePrice := by
  have hslipped : referencePrice ≤ referencePrice * (1 + x.slippageBps / bps) :=
    le_mul_of_one_le_right hpos.le (by linarith [slippage_nonneg hslippage])
  calc referencePrice = roundPrice referencePrice := (roundTo_of_mem hcents).symm
    _ ≤ x.fillPrice .buy referencePrice := roundTo_mono priceDigits hslipped

/-- A sell fills at the reference price or below. -/
theorem fillPrice_sell_le (hslippage : 0 ≤ x.slippageBps) (hpos : 0 < referencePrice)
    (hcents : referencePrice ∈ Grid ℚ priceDigits) :
    x.fillPrice .sell referencePrice ≤ referencePrice := by
  have hslipped : referencePrice * (1 + -(x.slippageBps / bps)) ≤ referencePrice :=
    mul_le_of_le_one_right hpos.le (by linarith [slippage_nonneg hslippage])
  calc x.fillPrice .sell referencePrice ≤ roundPrice referencePrice :=
        roundTo_mono priceDigits hslipped
    _ = referencePrice := roundTo_of_mem hcents

end SimulatedExchange

/-! ## One cycle -/

section Step

variable {c : TradingCycle} {x : SimulatedExchange} {symbol : String} {initial : ℚ}
  {db db' : Database} {p : Prepared} {s : Settlement} {sent : List OrderIntent}

/-- What a fill moved at the reference price is what it cost. -/
private theorem cashFlow_add_mul (order : OrderRecord) (fill : FillRecord) :
    fill.cashFlow + fill.signedQuantity * order.referencePrice.toRat =
      -tradeCost (order, fill) := by
  unfold FillRecord.cashFlow FillRecord.signedQuantity tradeCost
  cases fill.side <;> ring

/-- A settlement on the simulator leaves no order, or one order with its fill, which was paid
    at the mark price. -/
private theorem settled_trade (hslippage : 0 ≤ x.slippageBps)
    (hsim : c.OnSimulator x symbol initial) (hp : c.Prepares db p)
    (hs : c.Settles db p s sent) :
    (s.order = none ∧ s.fills = []) ∨
      ∃ order fill, s.order = some order ∧ s.fills = [fill] ∧
        order.referencePrice = .ofRat 18 p.markPrice ∧ Paid (order, fill) := by
  have hexacts := hsim.submitsTo.exact hp hs
  cases hs with
  | held => exact .inl ⟨rfl, rfl⟩
  | suppressed => exact .inl ⟨rfl, rfl⟩
  | @sent _ intent executed hintent hnew hsends =>
    right
    obtain ⟨submitClock, hsubmit⟩ := hsim.submitsTo
    have hanswer := hsends.answered
    rw [hsubmit] at hanswer
    obtain ⟨heq, -, f, hfills, hid, -, hside, hqty, hprice, -⟩ :=
      SimulatedExchange.submit_ok hanswer
    obtain ⟨-, -, -, href⟩ := hp.intent_eq hintent
    have hexact : f.Exact := hexacts f (by simp [Settlement.filled, TradingCycle.settle, hfills])
    have horder : executed.order = (recordExecution p.cycleId p.decision executed.execution).1 :=
      (congrArg Prod.fst hsends.recorded).symm
    have hrows : executed.fills = executed.execution.fills.map recordFill :=
      (congrArg Prod.snd hsends.recorded).symm
    have hreference : executed.order.referencePrice = .ofRat 18 p.markPrice := by
      rw [horder, recordExecution, heq, href]
    have hmark : (Numeric.ofRat 18 p.markPrice).toRat = p.markPrice :=
      Numeric.toRat_ofRat_of_mem (grid_mono (by norm_num [priceDigits]) (hsim.markPrice_mem hp))
    refine ⟨executed.order, recordFill f, rfl, by rw [TradingCycle.settle, hrows, hfills]; rfl,
      hreference, hid.trans hsends.order_eq.1.symm, ?_, ?_⟩
    · exact (Numeric.toRat_ofRat_of_mem hexact.feeQuote).symm ▸ f.feeQuote_nonneg
    · refine le_add_of_nonneg_right ?_
      have hquantity : (recordFill f).quantity.toRat = f.quantity :=
        Numeric.toRat_ofRat_of_mem hexact.quantity
      have hpaid : (recordFill f).price.toRat = f.price := Numeric.toRat_ofRat_of_mem hexact.price
      have hpos := hp.markPrice_pos
      have hcents := hsim.markPrice_mem hp
      dsimp only
      rw [hquantity, hpaid, hreference, hmark, hprice, href]
      refine mul_nonneg f.quantity_pos.le ?_
      -- rounding to cents never passes a reference price in cents
      cases hi : intent.side with
      | buy =>
        have hslips := SimulatedExchange.le_fillPrice_buy hslippage hpos hcents
        simpa [recordFill, hside, hi] using hslips
      | sell =>
        have hslips := SimulatedExchange.fillPrice_sell_le hslippage hpos hcents
        simpa [recordFill, hside, hi] using hslips

/-- A committed cycle keeps the equity explained. -/
theorem Attributed.step (hinitial : initial ∈ Grid ℚ 18) (hslippage : 0 ≤ x.slippageBps)
    (hsim : c.OnSimulator x symbol initial)
    (hnew : ∀ r ∈ db.equitySnapshots, r.takenAt < c.clock) (hdb : Attributed symbol initial db)
    (h : c.Commits db db' p s sent) : Attributed symbol initial db' := by
  have hconserved := hdb.conserved.step hinitial hsim hnew h
  have hlatest := h.latestSnapshotFor hnew
  rw [hsim.symbol_eq] at hlatest
  have hrows : db'.equitySnapshots = db.equitySnapshots ++ [c.snapshotRow p s] := by
    rw [h.tables]
    rfl
  have horders : db'.orders = db.orders ++ s.order.toList := by
    rw [h.tables]
    rfl
  have hfills : db'.fills = db.fills ++ s.fills := by
    rw [h.tables]
    rfl
  have htrade := settled_trade hslippage hsim h.prepared h.settled
  refine ⟨hconserved, ?_, ?_, ?_, ?_⟩
  · rw [hlatest, hrows, List.getLast?_concat]
  · rw [horders, hfills, List.length_append, List.length_append, hdb.matched]
    rcases htrade with ⟨horder, hfill⟩ | ⟨order, fill, horder, hfill, -⟩ <;> simp [horder, hfill]
  · intro trade hmem
    rw [Database.trades, horders, hfills, List.zip_append hdb.matched, List.mem_append] at hmem
    rcases hmem with hmem | hmem
    · exact hdb.paid trade hmem
    · rcases htrade with ⟨horder, hfill⟩ | ⟨order, fill, horder, hfill, -, hpaid⟩
      · simp [horder] at hmem
      · simp only [horder, hfill, Option.toList_some, List.zip_cons_cons, List.zip_nil_right,
          List.mem_singleton] at hmem
        exact hmem ▸ hpaid
  · intro mark
    have htrades : db'.trades = db.trades ++ s.order.toList.zip s.fills := by
      rw [Database.trades, horders, hfills, List.zip_append hdb.matched, Database.trades]
    have hcash : db'.loadCash symbol initial =
        db.loadCash symbol initial + (s.fills.map FillRecord.cashFlow).sum := by
      have hbefore : db.loadCash symbol initial = _ := hdb.conserved.agrees.1
      have hafter : db'.loadCash symbol initial = _ := hconserved.agrees.1
      rw [hafter, hbefore, Database.cashJournal, hfills, List.map_append, List.sum_append,
        ← add_assoc]
      rfl
    have hheld : db'.heldQuantity symbol =
        db.heldQuantity symbol + (s.fills.map FillRecord.signedQuantity).sum := by
      have hbefore : db.heldQuantity symbol = _ := hdb.conserved.agrees.2
      have hafter : db'.heldQuantity symbol = _ := hconserved.agrees.2
      rw [hafter, hbefore, Database.inventory, hfills, List.map_append, List.sum_append,
        ← add_assoc]
      rfl
    -- the fills cost what they did at the mark price of the new snapshot
    have hcost : (s.fills.map FillRecord.cashFlow).sum +
        (s.fills.map FillRecord.signedQuantity).sum * (c.snapshotRow p s).markPrice.toRat =
          -((s.order.toList.zip s.fills).map tradeCost).sum := by
      rcases htrade with ⟨horder, hfill⟩ | ⟨order, fill, horder, hfill, hreference, -⟩
      · simp [horder, hfill]
      · have hmoved := cashFlow_add_mul order fill
        rw [hreference] at hmoved
        have hmark : (c.snapshotRow p s).markPrice = .ofRat 18 p.markPrice := rfl
        simpa [horder, hfill, hmark] using hmoved
    have hquantity : (c.snapshotRow p s).positionQuantity.toRat = db'.heldQuantity symbol :=
      hconserved.latest_held _ hlatest
    have hbefore := hdb.equity (c.snapshotRow p s).markPrice.toRat
    rw [hrows, List.getLast?_concat, htrades, List.map_append, List.sum_append]
    dsimp only
    rw [hquantity, hcash, hheld]
    cases hlast : db.equitySnapshots.getLast? with
    | none =>
      -- the first snapshot: nothing was held before it
      rw [hlast] at hbefore
      rw [List.getLast?_eq_none_iff.mp hlast] at hbefore ⊢
      simp only [List.nil_append, marketGain] at hbefore ⊢
      linear_combination hbefore + hcost
    | some last =>
      rw [hlast] at hbefore
      dsimp only at hbefore
      rw [marketGain_append hlast, moveGain]
      linear_combination hbefore + hcost

end Step

/-! ## Whole runs -/

/-- The recorded equity is explained by the other rows. After any sequence of cycles on the
    simulator, each of which commits or raises, the newest snapshot shows the initial cash,
    plus what the market moved on the quantity held from snapshot to snapshot, less what the
    orders cost; every order cost at least its fee, so the equity is at most what the market
    made of it less the fees. -/
theorem equity_attributed {symbol : String} {initial : ℚ} (hinitial : initial ∈ Grid ℚ 18)
    {cycles : List TradingCycle} {db : Database}
    (hrun : Runs Attempted Database.empty cycles db)
    (hsim : ∀ c ∈ cycles, ∃ x, 0 ≤ x.slippageBps ∧ c.OnSimulator x symbol initial)
    (hclock : cycles.Pairwise (·.clock < ·.clock)) {row : EquitySnapshotRecord}
    (hrow : db.equitySnapshots.getLast? = some row) :
    row.equityQuote.toRat =
        initial + marketGain db.equitySnapshots - (db.trades.map tradeCost).sum ∧
      db.orders.length = db.fills.length ∧ (∀ trade ∈ db.trades, Paid trade) ∧
      row.equityQuote.toRat ≤
        initial + marketGain db.equitySnapshots - (db.fills.map (·.feeQuote.toRat)).sum := by
  have h : Attributed symbol initial db :=
    attempted_invariant hrun hclock nofun (attributed_empty symbol initial)
      fun _ c _ _ _ _ hc hnew hdb h =>
        have ⟨_, hslippage, hx⟩ := hsim c hc
        hdb.step hinitial hslippage hx hnew h
  have hlatest : db.latestSnapshotFor symbol = some row := h.latest.trans hrow
  -- the invariant values the ledger at any price: here at the price of the row
  have hequity : row.equityQuote.toRat =
      initial + marketGain db.equitySnapshots - (db.trades.map tradeCost).sum := by
    have hmarked := h.equity row.markPrice.toRat
    rw [hrow] at hmarked
    have hcash : db.loadCash symbol initial = row.cashQuote.toRat := by
      rw [Database.loadCash, hlatest]
    rw [h.conserved.latest_equity row hlatest, h.conserved.latest_held row hlatest, ← hcash,
      hmarked]
    ring
  refine ⟨hequity, h.matched, h.paid, ?_⟩
  -- slippage is not negative, so each trade costs at least its fee
  have hfees : (db.fills.map (·.feeQuote.toRat)).sum ≤ (db.trades.map tradeCost).sum := by
    have hfills : db.fills = db.trades.map Prod.snd := by
      rw [Database.trades, List.map_snd_zip h.matched.ge]
    rw [hfills, List.map_map]
    exact List.sum_le_sum fun trade htrade => (h.paid trade htrade).fee_le
  rw [hequity]
  exact sub_le_sub_left hfees _

/-- A buy and a sell one bar later. -/
theorem equity_attributed_buyThenSell : ∃ db row,
    commitAll Database.empty buyThenSell = some db ∧ db.equitySnapshots.getLast? = some row ∧
      row.equityQuote.toRat =
        10000 + marketGain db.equitySnapshots - (db.trades.map tradeCost).sum := by
  obtain ⟨db, hdb, hlast⟩ : ∃ db, commitAll Database.empty buyThenSell = some db ∧
      db.equitySnapshots.getLast?.isSome = true := by
    have hsome : (commitAll Database.empty buyThenSell).any (fun db =>
        db.equitySnapshots.getLast?.isSome) = true := by
      decide +kernel
    simpa [Option.any_eq_true] using hsome
  obtain ⟨row, hrow⟩ := Option.isSome_iff_exists.mp hlast
  have hmem : (10000 : ℚ) ∈ Grid ℚ 18 := mem_grid.mpr ⟨10000 * 10 ^ 18, by norm_num⟩
  -- both cycles are on the simulator, whose slippage is not negative
  have hsim : ∀ c ∈ buyThenSell, ∃ x, 0 ≤ x.slippageBps ∧ c.OnSimulator x "BTC/USDT" 10000 := by
    simp only [buyThenSell, List.forall_mem_cons]
    have hslippage : 0 ≤ (flatMarket 100 10 5).slippageBps := by decide +kernel
    exact ⟨⟨_, hslippage, simulatedCycle_onSimulator _ _ _ _ _⟩,
      ⟨_, hslippage, simulatedCycle_onSimulator _ _ _ _ _⟩, List.forall_mem_nil _⟩
  exact ⟨db, row, hdb, hrow, (equity_attributed hmem
    (attempted_of_committed (runs_of_commitAll hdb)) hsim (by decide) hrow).1⟩

end TradingBot
