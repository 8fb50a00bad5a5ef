import TradingBot.Spec.DecimalLedger
import TradingBot.Spec.SimulatedPrices

/-!
# What a simulated order costs

The simulator fills at a slipped price that is rounded to the cent. The rounding may favour
the bot, but never past a reference price that is itself in cents, since rounding is
monotone and leaves the reference alone. So at the reference price an order costs at least
its fee, and so does a sequence of orders, as long as the ledger's decimal context has room for
the amounts it adds up.
-/

namespace TradingBot

open FixedPoint

namespace SimulatedExchange

variable {x : SimulatedExchange}

/-- Every close of a fetched snapshot is a positive number of cents. -/
theorem close_mem {clock : Instant} {symbol timeframe : String} {limit : ℕ} {s : MarketSnapshot}
    (h : x.fetchSnapshot clock symbol timeframe limit .default = .ok s) :
    ∀ c ∈ s.candles, 0 < c.close ∧ c.close ∈ Grid ℚ priceDigits := by
  obtain ⟨-, firstOpen, step, -, hbars⟩ := fetchSnapshot_eq_ok h
  intro c hc
  obtain ⟨k, -, hbar⟩ := hbars.exists_mem_left hc
  refine ⟨c.close_pos, ?_⟩
  rw [(roundPriceIn_default.mp (candle_okIn hbar).2.2.2.1).1]
  exact roundTo_mem _ _

/-! ## One order -/

section Order

variable {clock : Instant} {intent : OrderIntent} {e : OrderExecution} {cash : ℚ}
  {position : Position} {u : LedgerUpdate}

/-- What an order fills at and is charged: a buy at the reference price or above, a sale at the
    reference price or below, and a fee that is not negative. -/
theorem submit_default_ok (hfee : 0 ≤ x.feeBps) (hslippage : 0 ≤ x.slippageBps)
    (hcents : intent.referencePrice ∈ Grid ℚ priceDigits)
    (h : x.submit clock intent .default = .ok e) : ∃ f, e.fills = [f] ∧
      f.symbol = intent.symbol ∧ f.side = intent.side ∧ f.quantity = intent.quantity ∧
      0 ≤ f.feeQuote ∧
      match f.side with
      | .buy => intent.referencePrice ≤ f.price
      | .sell => f.price ≤ intent.referencePrice := by
  obtain ⟨-, -, f, hfills, -, hsymbol, hside, hquantity, hprice, hcharged⟩ := submit_okIn h
  rw [fillPriceIn_default] at hprice
  rw [feeIn_default] at hcharged
  obtain ⟨hrounded, hlt⟩ := roundPriceIn_default.mp hprice
  have hbelow : f.price < priceBound := hrounded ▸ (le_abs_self _).trans_lt hlt
  have hpos := intent.referencePrice_pos
  obtain ⟨hsale, hbuy⟩ := x.slippedPrice_between hslippage hpos.le
  -- a reference price of too many digits is above every price that is filled
  have hkept : intent.referencePrice < priceBound →
      rounded intent.referencePrice = intent.referencePrice := fun hsmall =>
    rounded_of_cents hcents (by rwa [abs_of_pos hpos])
  refine ⟨f, hfills, hsymbol, hside, hquantity, ?_, ?_⟩
  · rw [(roundPriceIn_default.mp hcharged.2).1]
    exact roundTo_nonneg (charged_nonneg hfee intent.quantity_pos.le f.price_pos.le)
  · have hcent : roundPrice intent.referencePrice = intent.referencePrice :=
      roundTo_of_mem hcents
    cases hdirection : f.side with
    | buy =>
      rw [← hside, hdirection] at hrounded
      rcases lt_or_ge intent.referencePrice priceBound with hsmall | hlarge
      · rw [hkept hsmall] at hbuy
        exact hrounded ▸ hcent.ge.trans (roundPrice_mono hbuy)
      · have hbound : rounded priceBound = priceBound := by decide +kernel
        have hround : roundPrice priceBound = priceBound := roundTo_of_mem priceBound_mem
        have hlow : priceBound ≤ x.slippedPrice .buy intent.referencePrice :=
          hbound.ge.trans ((rounded_mono hlarge).trans hbuy)
        have hhigh : priceBound ≤ f.price := hrounded ▸ hround.ge.trans (roundPrice_mono hlow)
        exact absurd hbelow hhigh.not_gt
    | sell =>
      rw [← hside, hdirection] at hrounded
      rcases lt_or_ge intent.referencePrice priceBound with hsmall | hlarge
      · rw [hkept hsmall] at hsale
        exact hrounded ▸ (roundPrice_mono hsale).trans_eq hcent
      · exact hbelow.le.trans hlarge

/-- The account has room for every fill of an execution. -/
def HasRoom (cash : ℚ) (position : Position) (e : OrderExecution) : Prop :=
  ∀ f ∈ e.fills, LedgerUpdate.RoomFor ⟨cash, position, 0⟩ f

/-- At the reference price an order costs at least its fee, and the fee is not negative. -/
theorem equity_le (hfee : 0 ≤ x.feeBps) (hslippage : 0 ≤ x.slippageBps)
    (hcents : intent.referencePrice ∈ Grid ℚ priceDigits)
    (hsubmit : x.submit clock intent .default = .ok e) (hroom : HasRoom cash position e)
    (hfold : applyExecutionIn .default cash position e = .ok u) :
    u.cashQuote + u.position.notionalAt intent.referencePrice ≤
        cash + position.notionalAt intent.referencePrice - e.feesQuote ∧ 0 ≤ e.feesQuote := by
  obtain ⟨f, hfills, -, -, -, hpaid, hprice⟩ := submit_default_ok hfee hslippage hcents hsubmit
  have hfees : e.feesQuote = f.feeQuote := by simp [OrderExecution.feesQuote, hfills]
  obtain ⟨hcash, hquantity⟩ := applyExecutionIn_moved hfills (hroom f (by simp [hfills])) hfold
  refine ⟨?_, hfees ▸ hpaid⟩
  rw [Position.notionalAt, Position.notionalAt, hfees, hcash, hquantity]
  -- what the fill moves at the reference price is what it slipped, and the fee
  have hslipped : f.cashFlow + f.signedQuantity * intent.referencePrice ≤ -f.feeQuote := by
    have hq := f.quantity_pos.le
    unfold Fill.cashFlow Fill.signedQuantity Fill.notional
    cases hside : f.side with
    | buy =>
      rw [hside] at hprice
      have hcost := mul_le_mul_of_nonneg_left hprice hq
      dsimp only
      linarith
    | sell =>
      rw [hside] at hprice
      have hproceeds := mul_le_mul_of_nonneg_left hprice hq
      dsimp only
      linarith
  linarith

/-- An order for the position's symbol that is filled can be folded unless it sells more than
    is held. -/
theorem exists_fold (hfee : 0 ≤ x.feeBps) (hslippage : 0 ≤ x.slippageBps)
    (hcents : intent.referencePrice ∈ Grid ℚ priceDigits)
    (hsubmit : x.submit clock intent .default = .ok e) (hsymbol : intent.symbol = position.symbol)
    (hcovered : intent.side = .sell → intent.quantity ≤ position.quantity) :
    ∃ u, applyExecutionIn .default cash position e = .ok u := by
  obtain ⟨f, hfills, hsym, hside, hqty, -⟩ := submit_default_ok hfee hslippage hcents hsubmit
  exact exists_applyExecutionIn hfills (hsym.trans hsymbol) fun hsell =>
    hqty ▸ hcovered (hside ▸ hsell)

end Order

/-! ## Any sequence of orders -/

/-- An order at a mark price is filled and folded into a ledger that has room for it, which adds
    up the fees. -/
def Trades (x : SimulatedExchange) (markPrice : ℚ) (u : LedgerUpdate) (intent : OrderIntent)
    (v : LedgerUpdate) : Prop :=
  intent.referencePrice = markPrice ∧ ∃ clock e w, x.submit clock intent .default = .ok e ∧
    HasRoom u.cashQuote u.position e ∧
    applyExecutionIn .default u.cashQuote u.position e = .ok w ∧
    v = { w with feesQuote := u.feesQuote + e.feesQuote }

/-- At the mark price, orders cost at least the fees they pay. -/
theorem Trades.equity_le {markPrice : ℚ} (hfee : 0 ≤ x.feeBps) (hslippage : 0 ≤ x.slippageBps)
    (hcents : markPrice ∈ Grid ℚ priceDigits) {u v : LedgerUpdate} {orders : List OrderIntent}
    (hrun : Runs (x.Trades markPrice) u orders v) :
    v.cashQuote + v.position.notionalAt markPrice ≤
        u.cashQuote + u.position.notionalAt markPrice - (v.feesQuote - u.feesQuote) ∧
      u.feesQuote ≤ v.feesQuote := by
  induction hrun with
  | nil => simp
  | snoc _ hlast ih =>
    obtain ⟨rfl, clock, e, w, hsubmit, hroom, hfold, rfl⟩ := hlast
    obtain ⟨hequity, hpaid⟩ :=
      SimulatedExchange.equity_le hfee hslippage hcents hsubmit hroom hfold
    obtain ⟨hbefore, hfees⟩ := ih
    constructor
    · dsimp only
      linarith
    · exact hfees.trans (le_add_of_nonneg_right hpaid)

/-- Simulated execution never creates money while the ledger has room for what it adds up. At a
    reference price in cents, as every close of a simulated snapshot is, an order of either side
    that is filled is folded, and leaves the equity lower by at least its fee; so does every
    sequence of orders at one mark price. -/
theorem execution_never_profits (x : SimulatedExchange) (hfee : 0 ≤ x.feeBps)
    (hslippage : 0 ≤ x.slippageBps) :
    (∀ clock symbol timeframe limit s,
      x.fetchSnapshot clock symbol timeframe limit .default = .ok s →
      ∀ c ∈ s.candles, 0 < c.close ∧ c.close ∈ Grid ℚ priceDigits) ∧
    (∀ clock intent e cash position, intent.referencePrice ∈ Grid ℚ priceDigits →
      (intent.side = .sell → intent.quantity ≤ position.quantity) →
      x.submit clock intent .default = .ok e →
      (intent.symbol = position.symbol →
        ∃ u, applyExecutionIn .default cash position e = .ok u) ∧
      (HasRoom cash position e → ∀ u, applyExecutionIn .default cash position e = .ok u →
        u.cashQuote + u.position.notionalAt intent.referencePrice ≤
          cash + position.notionalAt intent.referencePrice - e.feesQuote ∧ 0 ≤ e.feesQuote)) ∧
    (∀ markPrice u orders v, markPrice ∈ Grid ℚ priceDigits →
      Runs (x.Trades markPrice) u orders v →
      v.cashQuote + v.position.notionalAt markPrice ≤
          u.cashQuote + u.position.notionalAt markPrice - (v.feesQuote - u.feesQuote) ∧
        u.feesQuote ≤ v.feesQuote) := by
  refine ⟨fun _ _ _ _ _ h => close_mem h, ?_, fun _ _ _ _ hcents hrun =>
    Trades.equity_le hfee hslippage hcents hrun⟩
  -- one execution folds, and costs at least its fee
  intro clock intent e cash position hcents hcovered hsubmit
  exact ⟨fun hsymbol => exists_fold hfee hslippage hcents hsubmit hsymbol hcovered,
    fun hroom u hfold => equity_le hfee hslippage hcents hsubmit hroom hfold⟩

/-- Five units bought at 100, at the default costs. -/
theorem execution_never_profits_fiveUnits :
    let intent : OrderIntent :=
      ⟨"BTCUSDT-15m-0-buy", "BTC/USDT", .buy, 5, 100, noon, by decide, by decide⟩
    ∃ e u, (flatMarket 100 10 5).submit noon intent .default = .ok e ∧
      applyExecutionIn .default 1000 ⟨"BTC/USDT", 0, 0, le_rfl, le_rfl⟩ e = .ok u ∧
      u.cashQuote + u.position.notionalAt 100 ≤ 1000 + 0 * 100 - e.feesQuote := by
  intro intent
  have hfilled : (((flatMarket 100 10 5).submit noon intent .default).toOption.any fun e =>
      e.fills.all fun f => f.side = .buy ∧ f.quantity = 5 ∧ f.price = 2001 / 20 ∧
        f.feeQuote = 1 / 2) = true := by
    decide +kernel
  obtain ⟨e, hsubmit, hfills⟩ := Except.exists_of_any hfilled
  have hcents : intent.referencePrice ∈ Grid ℚ priceDigits :=
    mem_grid.mpr ⟨10000, by decide +kernel⟩
  -- few digits are moved, so none is lost
  have hroom : HasRoom 1000 ⟨"BTC/USDT", 0, 0, le_rfl, le_rfl⟩ e := by
    intro f hf
    obtain ⟨hside, hquantity, hprice, hfee⟩ :=
      of_decide_eq_true (List.all_eq_true.mp hfills f hf)
    constructor <;>
      simp only [Fill.cashFlow, Fill.signedQuantity, Fill.notional, hside, hquantity, hprice,
        hfee] <;> decide +kernel
  obtain ⟨hfolds, hcosts⟩ := (execution_never_profits (flatMarket 100 10 5)
    (by decide +kernel) (by decide +kernel)).2.1 noon intent e 1000
    ⟨"BTC/USDT", 0, 0, le_rfl, le_rfl⟩ hcents (by rintro ⟨⟩) hsubmit
  obtain ⟨u, hfold⟩ := hfolds rfl
  exact ⟨e, u, hsubmit, hfold, (hcosts hroom u hfold).1⟩

/-- A third of a unit, to 28 digits, bought at 30000.01 without a fee: the cost has 32 digits
    and is rounded down. -/
theorem thirdOfUnit_profits :
    let third : ℚ := 3333333333333333333333333333 / 10 ^ 28
    let intent : OrderIntent :=
      ⟨"BTCUSDT-15m-0-buy", "BTC/USDT", .buy, third, 3000001 / 100, noon, by decide +kernel,
        by decide +kernel⟩
    ∃ e u, (flatMarket 100 0 0).submit noon intent .default = .ok e ∧
      applyExecutionIn .default 20000 ⟨"BTC/USDT", 0, 0, le_rfl, le_rfl⟩ e = .ok u ∧
      ¬(u.cashQuote + u.position.notionalAt (3000001 / 100) ≤
        20000 + 0 * (3000001 / 100) - e.feesQuote) := by
  intro third intent
  -- the notional has more digits than the context, and is rounded in favour of the buyer
  have hrun : (do
      let e ← (flatMarket 100 0 0).submit noon intent .default
      let u ← applyExecutionIn .default 20000 ⟨"BTC/USDT", 0, 0, le_rfl, le_rfl⟩ e
      return !decide (u.cashQuote + u.position.notionalAt (3000001 / 100) ≤
        20000 + 0 * (3000001 / 100) - e.feesQuote) : Except Error Bool) = .ok true := by
    decide +kernel
  obtain ⟨e, he, hrun⟩ := Except.bind_eq_ok.mp hrun
  obtain ⟨u, hu, hprofit⟩ := Except.bind_eq_ok.mp hrun
  exact ⟨e, u, he, hu, by simpa using Except.ok.inj hprofit⟩

end SimulatedExchange

end TradingBot
