import TradingBot.Execution.Ledger
import TradingBot.ForMathlib.AverageCost
import TradingBot.ForMathlib.Except

/-!
# Average-cost accounting over a fill history

A position that holds what a `Lot` holds keeps doing so under every fill, and refuses the
fills the lot refuses. What is known of histories of trades therefore holds of the ledger,
whichever way the fills are grouped into executions.
-/

namespace TradingBot

/-! ## Fills as trades -/

namespace Fill

def deal (f : Fill) : Deal ℚ := ⟨f.quantity, f.price, f.quantity_pos, f.price_pos⟩

/-- The trade a fill makes. -/
def trade (f : Fill) : Trade ℚ :=
  match f.side with
  | .buy => .buy f.deal
  | .sell => .sell f.deal

/-- The fill of a buy is a purchase. -/
theorem trade_of_buy {f : Fill} (h : f.side = .buy) : f.trade = .buy f.deal := by
  rw [trade, h]

/-- The fill of a sell is a sale. -/
theorem trade_of_sell {f : Fill} (h : f.side = .sell) : f.trade = .sell f.deal := by
  rw [trade, h]

/-- The trade of a fill moves the quantity as the fill does. -/
@[simp] theorem signed_trade (f : Fill) : f.trade.signed = f.signedQuantity := by
  cases hside : f.side <;> simp [trade, signedQuantity, hside, Trade.signed, deal]

/-- The cash moves by what the trade pays out, less the fee. -/
theorem cashFlow_eq (f : Fill) : f.cashFlow = f.trade.proceeds - f.feeQuote := by
  cases hside : f.side
  · simp only [cashFlow, trade, hside, Trade.proceeds, deal, notional]
    ring
  · simp only [cashFlow, trade, hside, Trade.proceeds, deal, notional]

end Fill

/-- What the fills of a history bought. -/
def bought (fills : List Fill) : ℚ := ((fills.filter (·.side = .buy)).map Fill.quantity).sum

/-- What the fills of a history sold. -/
def sold (fills : List Fill) : ℚ := ((fills.filter (·.side = .sell)).map Fill.quantity).sum

/-- The prices of the buy fills of a history. -/
def buyPrices (fills : List Fill) : Set ℚ := {price | ∃ f ∈ fills, f.side = .buy ∧ f.price = price}

/-- What the fills add up to is what was bought less what was sold. -/
theorem sum_signedQuantity (fills : List Fill) :
    (fills.map Fill.signedQuantity).sum = bought fills - sold fills := by
  induction fills with
  | nil => simp [bought, sold]
  | cons f fills ih =>
    rw [List.map_cons, List.sum_cons, ih]
    cases hside : f.side
    · simp only [bought, sold, Fill.signedQuantity, hside, List.filter_cons, decide_true, if_true,
        List.map_cons, List.sum_cons, reduceCtorEq, decide_false, Bool.false_eq_true, if_false]
      ring
    · simp only [bought, sold, Fill.signedQuantity, hside, List.filter_cons, decide_true, if_true,
        List.map_cons, List.sum_cons, reduceCtorEq, decide_false, Bool.false_eq_true, if_false]
      ring

/-- So do their trades. -/
theorem sum_signed_trade (fills : List Fill) :
    ((fills.map Fill.trade).map Trade.signed).sum = bought fills - sold fills := by
  rw [← sum_signedQuantity, List.map_map]
  exact congrArg List.sum (List.map_congr_left fun f _ => f.signed_trade)

/-- The cash flow of the fills is the proceeds of their trades less the fees. -/
theorem sum_cashFlow (fills : List Fill) :
    (fills.map Fill.cashFlow).sum =
      ((fills.map Fill.trade).map Trade.proceeds).sum - (fills.map Fill.feeQuote).sum := by
  induction fills with
  | nil => simp
  | cons f fills ih =>
    simp only [List.map_cons, List.sum_cons, ih, f.cashFlow_eq]
    ring

/-- The prices paid for the trades are those of the buys among the fills. -/
theorem paid_trades (fills : List Fill) : Lot.paid (fills.map Fill.trade) = buyPrices fills := by
  ext price
  constructor
  · rintro ⟨d, hd, rfl⟩
    obtain ⟨f, hf, htrade⟩ := List.mem_map.mp hd
    cases hside : f.side with
    | buy =>
      rw [Fill.trade_of_buy hside] at htrade
      cases htrade
      exact ⟨f, hf, hside, rfl⟩
    | sell =>
      rw [Fill.trade_of_sell hside] at htrade
      cases htrade
  · rintro ⟨f, hf, hside, rfl⟩
    exact ⟨f.deal, List.mem_map.mpr ⟨f, hf, Fill.trade_of_buy hside⟩, rfl⟩

/-! ## Positions as lots -/

namespace Position

/-- Nothing is held, and what it cost is forgotten. -/
structure Flat (p : Position) : Prop where
  quantity : p.quantity = 0
  averagePrice : p.averagePrice = 0

/-- A position and a lot hold the same quantity at the same average. -/
structure Holds (p : Position) (l : Lot ℚ) : Prop where
  quantity : p.quantity = l.quantity
  averagePrice : p.averagePrice = l.average

/-- A flat position holds the empty lot. -/
theorem Flat.holds {p : Position} (h : p.Flat) : p.Holds Lot.flat := ⟨h.quantity, h.averagePrice⟩

/-- Two positions of a symbol that hold one lot are the same. -/
theorem Holds.eq {p q : Position} {l : Lot ℚ} (hp : p.Holds l) (hq : q.Holds l)
    (hsymbol : p.symbol = q.symbol) : p = q := by
  have hquantity := hp.quantity.trans hq.quantity.symm
  have haverage := hp.averagePrice.trans hq.averagePrice.symm
  cases p
  cases q
  simp_all

/-- A fill does to a position what its trade does to the lot. -/
theorem Holds.apply_of_some {p : Position} {l m : Lot ℚ} {f : Fill} (h : p.Holds l)
    (hsymbol : f.symbol = p.symbol) (hm : l.after f.trade = some m) :
    ∃ q, p.apply f = .ok q ∧ q.symbol = p.symbol ∧ q.Holds m := by
  obtain ⟨hquantity, haverage⟩ := h
  rw [apply, if_neg (not_not.mpr hsymbol)]
  cases hside : f.side with
  | buy =>
    rw [Fill.trade_of_buy hside] at hm
    cases hm
    rw [if_pos rfl, hquantity, haverage]
    exact ⟨_, validate_of_nonneg (l.buy f.deal).quantity_nonneg
      ((l.buy f.deal).average_pos (l.quantity_buy_pos f.deal)).le, rfl, rfl, rfl⟩
  | sell =>
    rw [Fill.trade_of_sell hside] at hm
    obtain ⟨hle, rfl⟩ := Lot.after_sell hm
    have hsell : OrderSide.sell ≠ .buy := by decide
    -- the guard of the source is the condition of the lot
    have hcovered : ¬f.quantity > l.quantity := not_lt.mpr hle
    rw [if_neg hsell, hquantity, haverage, if_neg hcovered]
    refine ⟨_, validate_of_nonneg (l.sell f.deal hle).quantity_nonneg ?_, rfl, rfl, rfl⟩
    split
    next hpos => exact ((l.sell f.deal hle).average_pos hpos).le.trans_eq (if_pos hpos)
    next => exact le_rfl

/-- A position refuses the fills whose trade the lot refuses. -/
theorem Holds.apply_of_none {p : Position} {l : Lot ℚ} {f : Fill} (h : p.Holds l)
    (hsymbol : f.symbol = p.symbol) (hnone : l.after f.trade = none) :
    p.apply f = .error shortSelling := by
  rw [apply, if_neg (not_not.mpr hsymbol)]
  have hshort := Lot.after_eq_none.mp hnone
  cases hside : f.side with
  | buy =>
    rw [Fill.trade_of_buy hside] at hnone
    cases hnone
  | sell =>
    rw [f.signed_trade, Fill.signedQuantity, hside, ← h.quantity] at hshort
    have hsell : OrderSide.sell ≠ .buy := by decide
    have hmore : f.quantity > p.quantity := by linarith
    rw [if_neg hsell, if_pos hmore]

/-- What a fill realises against the average price the position holds. -/
def realised (p : Position) (f : Fill) : ℚ :=
  match f.side with
  | .buy => 0
  | .sell => f.quantity * (f.price - p.averagePrice)

/-- What the sells among the fills realise, each against the average price held at that
    sell. -/
def realisedProfit (p : Position) : List Fill → ℚ
  | [] => 0
  | f :: fills =>
    p.realised f +
      match p.apply f with
      | .ok q => q.realisedProfit fills
      | .error _ => 0

/-- The profit a position takes on a fill is the gain of its lot on the trade. -/
theorem Holds.realised {p : Position} {l : Lot ℚ} (h : p.Holds l) (f : Fill) :
    p.realised f = f.trade.gain l := by
  cases hside : f.side
  · rw [Position.realised, Fill.trade_of_buy hside, hside, Trade.gain]
  · rw [Position.realised, Fill.trade_of_sell hside, hside, Trade.gain, h.averagePrice]
    rfl

/-- The profit over many fills is the gain of the lot on their trades. -/
theorem Holds.realisedProfit {p : Position} {l : Lot ℚ} {fills : List Fill} (h : p.Holds l)
    (hsymbol : ∀ f ∈ fills, f.symbol = p.symbol) :
    p.realisedProfit fills = l.gain (fills.map Fill.trade) := by
  induction fills generalizing p l with
  | nil => rfl
  | cons f fills ih =>
    obtain ⟨hf, hfills⟩ := List.forall_mem_cons.mp hsymbol
    rw [Position.realisedProfit, List.map_cons, Lot.gain, h.realised]
    cases hm : l.after f.trade with
    | none => rw [h.apply_of_none hf hm, Option.elim_none]
    | some m =>
      obtain ⟨q, hq, hqsymbol, hholds⟩ := h.apply_of_some hf hm
      rw [hq, Option.elim_some, ← ih hholds fun g hg => (hfills g hg).trans hqsymbol.symm]

end Position

/-! ## Executions -/

/-- The updates that the executions of a history return, each folded into the ledger the
    one before it left. -/
def applyExecutions (cashQuote : ℚ) (position : Position) :
    List OrderExecution → Except Error (List LedgerUpdate)
  | [] => .ok []
  | execution :: executions => do
    let update ← applyExecution cashQuote position execution
    let updates ← applyExecutions update.cashQuote update.position executions
    return update :: updates

/-- The cash and the position that the last update of a history leaves. -/
def ledgerAfter (cashQuote : ℚ) (position : Position) : List LedgerUpdate → ℚ × Position
  | [] => (cashQuote, position)
  | update :: updates => ledgerAfter update.cashQuote update.position updates

/-- The fills of a history, in the order in which they are folded. -/
def allFills (executions : List OrderExecution) : List Fill := executions.flatMap (·.fills)

namespace LedgerUpdate

variable {u : LedgerUpdate} {l m : Lot ℚ} {fills : List Fill}

/-- Where the lot can follow the trades, the ledger folds the fills and holds the lot that they
    leave. -/
theorem foldlM_of_some (h : u.position.Holds l)
    (hsymbol : ∀ f ∈ fills, f.symbol = u.position.symbol)
    (hm : l.run (fills.map Fill.trade) = some m) :
    ∃ v, fills.foldlM applyFill u = .ok v ∧ v.position.symbol = u.position.symbol ∧
      v.position.Holds m := by
  induction fills generalizing u l with
  | nil =>
    cases hm
    exact ⟨u, rfl, rfl, h⟩
  | cons f fills ih =>
    obtain ⟨hf, hfills⟩ := List.forall_mem_cons.mp hsymbol
    obtain ⟨k, hk, hm⟩ := Option.bind_eq_some_iff.mp hm
    -- the first fill moves position and lot alike, and the induction is over the rest
    obtain ⟨q, hq, hqsymbol, hholds⟩ := h.apply_of_some hf hk
    obtain ⟨w, hw, rfl⟩ : ∃ w, u.applyFill f = .ok w ∧ w.position = q := by
      simp [applyFill, hq, bind, Except.bind, pure, Except.pure]
    obtain ⟨v, hv, hvsymbol, hvholds⟩ :=
      ih hholds (fun g hg => (hfills g hg).trans hqsymbol.symm) hm
    refine ⟨v, ?_, hvsymbol.trans hqsymbol, hvholds⟩
    rw [List.foldlM_cons]
    exact Except.bind_eq_ok.mpr ⟨w, hw, hv⟩

/-- Where the lot cannot follow the trades, the ledger raises on short selling. -/
theorem foldlM_of_none (h : u.position.Holds l)
    (hsymbol : ∀ f ∈ fills, f.symbol = u.position.symbol)
    (hnone : l.run (fills.map Fill.trade) = none) :
    fills.foldlM applyFill u = .error Position.shortSelling := by
  induction fills generalizing u l with
  | nil => cases hnone
  | cons f fills ih =>
    obtain ⟨hf, hfills⟩ := List.forall_mem_cons.mp hsymbol
    rw [List.foldlM_cons]
    -- either the first fill is not covered, or the rest is not
    cases hk : l.after f.trade with
    | none => simp [applyFill, h.apply_of_none hf hk, bind, Except.bind]
    | some k =>
      rw [List.map_cons, Lot.run_cons, hk, Option.bind_some] at hnone
      obtain ⟨q, hq, hqsymbol, hholds⟩ := h.apply_of_some hf hk
      obtain ⟨w, hw, rfl⟩ : ∃ w, u.applyFill f = .ok w ∧ w.position = q := by
        simp [applyFill, hq, bind, Except.bind, pure, Except.pure]
      rw [hw]
      exact ih hholds (fun g hg => (hfills g hg).trans hqsymbol.symm) hnone

end LedgerUpdate

section Histories

variable {cash : ℚ} {position : Position} {executions : List OrderExecution}
  {updates : List LedgerUpdate} {l m : Lot ℚ}

/-- The fills of some executions are those of the first and those of the rest. -/
theorem allFills_cons (e : OrderExecution) (es : List OrderExecution) :
    allFills (e :: es) = e.fills ++ allFills es := List.flatMap_cons

/-- A history is folded when the lot accepts its trades, and leaves what the lot holds. -/
theorem applyExecutions_of_some (cash : ℚ) (h : position.Holds l)
    (hsymbol : ∀ f ∈ allFills executions, f.symbol = position.symbol)
    (hm : l.run ((allFills executions).map Fill.trade) = some m) :
    ∃ updates, applyExecutions cash position executions = .ok updates ∧
      (ledgerAfter cash position updates).2.symbol = position.symbol ∧
      (ledgerAfter cash position updates).2.Holds m := by
  induction executions generalizing cash position l with
  | nil =>
    cases hm
    exact ⟨[], rfl, rfl, h⟩
  | cons e es ih =>
    rw [allFills_cons] at hsymbol hm
    rw [List.map_append, Lot.run_append] at hm
    obtain ⟨k, hk, hm⟩ := Option.bind_eq_some_iff.mp hm
    obtain ⟨hfirst, hrest⟩ := List.forall_mem_append.mp hsymbol
    -- one execution at a time, each from the ledger the one before has left
    obtain ⟨v, hv, hvsymbol, hvholds⟩ :=
      LedgerUpdate.foldlM_of_some (u := ⟨cash, position, 0⟩) h hfirst hk
    obtain ⟨updates, hupdates, hlast, hheld⟩ :=
      ih v.cashQuote hvholds (fun f hf => (hrest f hf).trans hvsymbol.symm) hm
    refine ⟨v :: updates, ?_, hlast.trans hvsymbol, hheld⟩
    exact Except.bind_eq_ok.mpr ⟨v, hv, Except.bind_eq_ok.mpr ⟨updates, hupdates, rfl⟩⟩

/-- A history is refused when the lot refuses its trades. -/
theorem applyExecutions_of_none (cash : ℚ) (h : position.Holds l)
    (hsymbol : ∀ f ∈ allFills executions, f.symbol = position.symbol)
    (hnone : l.run ((allFills executions).map Fill.trade) = none) :
    applyExecutions cash position executions = .error Position.shortSelling := by
  induction executions generalizing cash position l with
  | nil => cases hnone
  | cons e es ih =>
    rw [allFills_cons] at hsymbol hnone
    rw [List.map_append, Lot.run_append] at hnone
    obtain ⟨hfirst, hrest⟩ := List.forall_mem_append.mp hsymbol
    rw [applyExecutions, applyExecution]
    -- the shortfall is within the first execution or comes later
    cases hk : l.run (e.fills.map Fill.trade) with
    | none =>
      rw [LedgerUpdate.foldlM_of_none (u := ⟨cash, position, 0⟩) h hfirst hk]
      rfl
    | some k =>
      rw [hk, Option.bind_some] at hnone
      obtain ⟨v, hv, hvsymbol, hvholds⟩ :=
        LedgerUpdate.foldlM_of_some (u := ⟨cash, position, 0⟩) h hfirst hk
      rw [hv]
      have hrefused := ih v.cashQuote hvholds
        (fun f hf => (hrest f hf).trans hvsymbol.symm) hnone
      simp [hrefused, bind, Except.bind]

/-- A history that is folded moves the cash by its fills, and returns the fees of each
    execution. -/
theorem applyExecutions_ok (h : applyExecutions cash position executions = .ok updates) :
    (ledgerAfter cash position updates).1 =
        cash + ((allFills executions).map Fill.cashFlow).sum ∧
      updates.map LedgerUpdate.feesQuote = executions.map OrderExecution.feesQuote := by
  induction executions generalizing cash position updates with
  | nil =>
    cases h
    simp [ledgerAfter, allFills]
  | cons e es ih =>
    obtain ⟨u, hu, h⟩ := Except.bind_eq_ok.mp h
    obtain ⟨us, hus, h⟩ := Except.bind_eq_ok.mp h
    cases h
    obtain ⟨hcash, -, -, hfees, -⟩ := applyExecution_ok hu
    obtain ⟨hrest, hmap⟩ := ih hus
    constructor
    · rw [ledgerAfter, hrest, hcash, allFills_cons, List.map_append, List.sum_append, add_assoc]
    · rw [List.map_cons, List.map_cons, hfees, hmap]

/-- Buy fills make purchases. -/
theorem trades_of_buys {fills : List Fill} (h : ∀ f ∈ fills, f.side = .buy) :
    fills.map Fill.trade = (fills.map Fill.deal).map .buy := by
  rw [List.map_map]
  exact List.map_congr_left fun f hf => Fill.trade_of_buy (h f hf)

/-- The cash and the cost of what is held are what the history started with, the profit its
    sells realised, and the fees. -/
theorem equity_at_cost (hholds : position.Holds l)
    (hsymbol : ∀ f ∈ allFills executions, f.symbol = position.symbol)
    (hm : l.run ((allFills executions).map Fill.trade) = some m)
    (h : applyExecutions cash position executions = .ok updates) :
    (ledgerAfter cash position updates).1 + m.cost =
      cash + l.cost + position.realisedProfit (allFills executions) -
        ((allFills executions).map Fill.feeQuote).sum := by
  rw [(applyExecutions_ok h).1, sum_cashFlow, hholds.realisedProfit hsymbol, Lot.run_cost hm]
  ring

/-- Purchases can be folded in any order and in any grouping. -/
theorem applyExecutions_perm {others : List OrderExecution} (hholds : position.Holds l)
    (hsymbol : ∀ f ∈ allFills executions, f.symbol = position.symbol)
    (hbuys : ∀ f ∈ allFills executions, f.side = .buy)
    (hperm : (allFills others).Perm (allFills executions)) :
    ∃ us vs, applyExecutions cash position executions = .ok us ∧
      applyExecutions cash position others = .ok vs ∧
      ledgerAfter cash position us = ledgerAfter cash position vs := by
  have hsymbol' : ∀ f ∈ allFills others, f.symbol = position.symbol :=
    fun f hf => hsymbol f (hperm.mem_iff.mp hf)
  have htrades : (allFills others).map Fill.trade = ((allFills others).map Fill.deal).map .buy :=
    trades_of_buys fun f hf => hbuys f (hperm.mem_iff.mp hf)
  -- purchases always go through, and their order does not matter to the lot
  have hrun := Lot.run_map_buy l ((allFills executions).map Fill.deal)
  have hrun' := hrun
  rw [← Lot.run_perm l (hperm.map Fill.deal), ← htrades] at hrun'
  rw [← trades_of_buys hbuys] at hrun
  obtain ⟨us, hus, hsym, hheld⟩ := applyExecutions_of_some cash hholds hsymbol hrun
  obtain ⟨vs, hvs, hsym', hheld'⟩ := applyExecutions_of_some cash hholds hsymbol' hrun'
  refine ⟨us, vs, hus, hvs, Prod.ext ?_ (hheld.eq hheld' (hsym.trans hsym'.symm))⟩
  rw [(applyExecutions_ok hus).1, (applyExecutions_ok hvs).1, (hperm.map Fill.cashFlow).sum_eq]

/-- From an empty lot, a history is refused when some prefix sells more than it bought. -/
theorem run_flat_eq_none_iff {fills : List Fill} :
    Lot.flat.run (fills.map Fill.trade) = none ↔
      ∃ first, first <+: fills ∧ bought first < sold first := by
  rw [Lot.run_eq_none]
  constructor
  · rintro ⟨ts, hts, hneg⟩
    obtain ⟨first, hfirst, rfl⟩ := List.prefix_map_iff.mp hts
    rw [sum_signed_trade] at hneg
    simp only [Lot.flat, zero_add, sub_neg] at hneg
    exact ⟨first, hfirst, hneg⟩
  · rintro ⟨first, hfirst, hshort⟩
    refine ⟨first.map Fill.trade, hfirst.map Fill.trade, ?_⟩
    rw [sum_signed_trade]
    simpa only [Lot.flat, zero_add, sub_neg] using hshort

/-- From an empty lot, a history holds what it bought and did not sell. -/
theorem run_flat_quantity {fills : List Fill}
    (hm : Lot.flat.run (fills.map Fill.trade) = some m) :
    m.quantity = bought fills - sold fills := by
  rw [Lot.run_quantity hm, sum_signed_trade, Lot.flat, zero_add]

/-- What is held cost on average a price between those paid since nothing was held. -/
theorem run_flat_average_mem {before since : List Fill}
    (hm : Lot.flat.run ((before ++ since).map Fill.trade) = some m)
    (hbefore : bought before = sold before) (hheld : 0 < m.quantity) :
    ∃ lo hi, IsLeast (buyPrices since) lo ∧ IsGreatest (buyPrices since) hi ∧
      lo ≤ m.average ∧ m.average ≤ hi := by
  rw [List.map_append, Lot.run_append] at hm
  obtain ⟨k, hk, hm⟩ := Option.bind_eq_some_iff.mp hm
  have hkflat : k.quantity = 0 := by rw [run_flat_quantity hk, hbefore, sub_self]
  rw [← paid_trades]
  exact Lot.run_average_mem hm hkflat hheld

/-- Average-cost accounting is exact over any history of executions of one symbol from a
    flat position. A history is refused exactly when it sells more than was bought by then.
    Otherwise the position holds the difference, at an average between the lowest and the
    highest price paid since it was last flat, the books balance at cost, and every update
    returns the fees of its execution. The order of purchases does not matter. -/
theorem applyExecutions_averageCost (cash : ℚ) (position : Position)
    (executions : List OrderExecution) (hflat : position.Flat)
    (hsymbol : ∀ f ∈ allFills executions, f.symbol = position.symbol) :
    ((∃ e, applyExecutions cash position executions = .error e) ↔
      ∃ fills, fills <+: allFills executions ∧ bought fills < sold fills) ∧
    (∀ updates, applyExecutions cash position executions = .ok updates →
      let (cashAfter, after) := ledgerAfter cash position updates
      after.quantity = bought (allFills executions) - sold (allFills executions) ∧
      0 ≤ after.quantity ∧
      (after.averagePrice = 0 ↔ after.quantity = 0) ∧
      (∀ before since, allFills executions = before ++ since → bought before = sold before →
        0 < after.quantity →
        ∃ lo hi, IsLeast (buyPrices since) lo ∧ IsGreatest (buyPrices since) hi ∧
          lo ≤ after.averagePrice ∧ after.averagePrice ≤ hi) ∧
      cashAfter + after.quantity * after.averagePrice =
        cash + position.realisedProfit (allFills executions) -
          ((allFills executions).map Fill.feeQuote).sum ∧
      updates.map LedgerUpdate.feesQuote = executions.map OrderExecution.feesQuote) ∧
    ((∀ f ∈ allFills executions, f.side = .buy) →
      ∀ others, (allFills others).Perm (allFills executions) →
        ∃ us vs, applyExecutions cash position executions = .ok us ∧
          applyExecutions cash position others = .ok vs ∧
          ledgerAfter cash position us = ledgerAfter cash position vs) := by
  refine ⟨?_, fun updates hupdates => ?_,
    fun hbuys others hperm => applyExecutions_perm hflat.holds hsymbol hbuys hperm⟩
  · -- the lot is empty at first, so a prefix is covered when it bought what it sold
    rw [← run_flat_eq_none_iff]
    cases hm : Lot.flat.run ((allFills executions).map Fill.trade) with
    | none => simp [applyExecutions_of_none cash hflat.holds hsymbol hm]
    | some m =>
      obtain ⟨updates, hupdates, -⟩ :=
        applyExecutions_of_some cash hflat.holds hsymbol hm
      simp [hupdates]
  · cases hm : Lot.flat.run ((allFills executions).map Fill.trade) with
    | none =>
      rw [applyExecutions_of_none cash hflat.holds hsymbol hm] at hupdates
      cases hupdates
    | some m =>
      obtain ⟨updates', hupdates', -, hheld⟩ :=
        applyExecutions_of_some cash hflat.holds hsymbol hm
      cases hupdates.symm.trans hupdates'
      -- the lot that is left tells everything about the position
      have hbooks := equity_at_cost hflat.holds hsymbol hm hupdates
      have hfees := (applyExecutions_ok hupdates).2
      rcases hafter : ledgerAfter cash position updates with ⟨cashAfter, after⟩
      rw [hafter] at hheld hbooks
      obtain ⟨hquantity, haverage⟩ := hheld
      simp only at hquantity haverage hbooks ⊢
      rw [hquantity, haverage]
      refine ⟨?_, m.quantity_nonneg, m.average_eq_zero_iff, ?_, ?_, hfees⟩
      · exact run_flat_quantity hm
      · intro before since hsplit hbefore hheld
        exact run_flat_average_mem (hsplit ▸ hm) hbefore hheld
      · have hnothing : (Lot.flat : Lot ℚ).cost = 0 := by simp [Lot.cost, Lot.flat]
        rwa [Lot.cost, hnothing, add_zero] at hbooks

end Histories

/-- An execution of a buy at 100, with a fee of 1, and one that sells half of it at 120. -/
def buyThenSellHalf : List OrderExecution :=
  let bought : Fill :=
    ⟨"1-buy", "BTC/USDT", .buy, 2, 100, 1, 0, by decide, by decide, by decide +kernel⟩
  let sold : Fill :=
    ⟨"2-sell", "BTC/USDT", .sell, 1, 120, 1, 0, by decide, by decide, by decide +kernel⟩
  [⟨⟨"1-buy", "BTC/USDT", .buy, 2, 100, 0, by decide, by decide⟩, .filled, none, [bought], none⟩,
    ⟨⟨"2-sell", "BTC/USDT", .sell, 1, 120, 0, by decide, by decide⟩, .filled, none, [sold], none⟩]

/-- One unit bought at 100 and half of it sold at 120. -/
theorem applyExecutions_averageCost_half :
    let position : Position := ⟨"BTC/USDT", 0, 0, le_rfl, le_rfl⟩
    ∃ updates, applyExecutions 1000 position buyThenSellHalf = .ok updates ∧
      updates.map LedgerUpdate.feesQuote = [1, 1] ∧
      (ledgerAfter 1000 position updates).1 + (ledgerAfter 1000 position updates).2.quantity *
        (ledgerAfter 1000 position updates).2.averagePrice = 1000 + 20 - 2 := by
  intro position
  have hsymbol : ∀ f ∈ allFills buyThenSellHalf, f.symbol = position.symbol := by
    simp [buyThenSellHalf, allFills, position]
  have hexact := applyExecutions_averageCost 1000 position buyThenSellHalf ⟨rfl, rfl⟩ hsymbol
  -- the sale is covered, so the fold returns
  cases hupdates : applyExecutions 1000 position buyThenSellHalf with
  | error err =>
    have hfolded : (applyExecutions 1000 position buyThenSellHalf).toOption.isSome = true := by
      decide +kernel
    simp [hupdates, Except.toOption] at hfolded
  | ok updates =>
    obtain ⟨-, -, -, -, hbooks, hfees⟩ := hexact.2.1 updates hupdates
    refine ⟨updates, rfl, hfees.trans ?_, hbooks.trans ?_⟩
    · decide +kernel
    · decide +kernel

end TradingBot
