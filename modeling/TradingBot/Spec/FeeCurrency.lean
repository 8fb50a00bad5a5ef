import TradingBot.Spec.VenueFills

/-!
# Fees in quote and in base

A venue takes its fee from one of the two balances of a symbol. The gateway reads the cost of
the fee without its currency, and the ledger takes it from the cash. So the ledger follows the
balances of the venue exactly for the fees that are paid in quote, or are zero, as long as the 28
digits of the default context hold the amounts.
-/

namespace TradingBot

/-- The two currencies of a symbol. -/
inductive FeeCurrency where
  | quote
  | base
  deriving DecidableEq, Repr

/-- A fee as the venue reports it. -/
structure VenueFee where
  cost : ℚ
  currency : FeeCurrency
  cost_nonneg : 0 ≤ cost
  deriving Repr

namespace VenueFee

/-- What a fee takes from the balance of a currency. -/
def takenFrom (fee : VenueFee) (currency : FeeCurrency) : ℚ :=
  if fee.currency = currency then fee.cost else 0

/-- The change of the quote balance of the venue: the notional of the trade, less the fee if
    it is taken there. -/
def quoteChange (fee : VenueFee) (side : OrderSide) (quantity price : ℚ) : ℚ :=
  (match side with
    | .buy => -(quantity * price)
    | .sell => quantity * price) - fee.takenFrom .quote

/-- The change of the base balance of the venue: the quantity of the trade, less the fee if
    it is taken there. -/
def baseChange (fee : VenueFee) (side : OrderSide) (quantity : ℚ) : ℚ :=
  (match side with
    | .buy => quantity
    | .sell => -quantity) - fee.takenFrom .base

/-- Nothing of the fee is taken from the base balance. -/
def InQuote (fee : VenueFee) : Prop := fee.currency = .quote ∨ fee.cost = 0

/-- A fee is in the quote exactly where it takes its cost from there and nothing from the base. -/
theorem inQuote_iff {fee : VenueFee} :
    fee.InQuote ↔ fee.takenFrom .quote = fee.cost ∧ fee.takenFrom .base = 0 := by
  unfold InQuote takenFrom
  cases fee.currency <;> simp [eq_comm]

end VenueFee

namespace CcxtSandboxExchange

variable {createOrder : CreateOrder → Except ClientError OrderResponse} {clock : Instant}
  {intent : OrderIntent} {response : OrderResponse} {fill : Fill} {fee : VenueFee}

/-- The cash moves as the quote balance when all of the fee is taken there. -/
theorem Reports.cashFlow_eq_iff (h : Reports response intent fill)
    (hfee : response.feeCost = some fee.cost) :
    fill.cashFlow = fee.quoteChange intent.side fill.quantity fill.price ↔
      fee.takenFrom .quote = fee.cost := by
  have hcost : fill.feeQuote = fee.cost := by rw [h.feeQuote, hfee, Option.getD_some]
  unfold Fill.cashFlow VenueFee.quoteChange Fill.notional
  rw [h.side, hcost]
  cases intent.side with
  | buy => constructor <;> intro heq <;> linarith
  | sell => constructor <;> intro heq <;> linarith

/-- The quantity moves as the base balance when nothing of the fee is taken there. -/
theorem Reports.signedQuantity_eq_iff (h : Reports response intent fill) :
    fill.signedQuantity = fee.baseChange intent.side fill.quantity ↔ fee.takenFrom .base = 0 := by
  unfold Fill.signedQuantity VenueFee.baseChange
  rw [h.side]
  cases intent.side with
  | buy => constructor <;> intro heq <;> linarith
  | sell => constructor <;> intro heq <;> linarith

/-- A fill moves cash and quantity as the venue moves its balances when the fee is in quote,
    and in no other case. -/
theorem Reports.follows_venue_iff (h : Reports response intent fill)
    (hfee : response.feeCost = some fee.cost) :
    fill.cashFlow = fee.quoteChange intent.side fill.quantity fill.price ∧
        fill.signedQuantity = fee.baseChange intent.side fill.quantity ↔ fee.InQuote := by
  rw [VenueFee.inQuote_iff, h.cashFlow_eq_iff hfee, h.signedQuantity_eq_iff]

/-- Folding an execution at an average price takes an order of the symbol that is held and no
    more of it than that. Where no amount has more digits than the context, it changes cash and
    quantity by exactly what the balances of the venue change when the fee is in quote, and in no
    other case. -/
theorem fee_booked_iff_inQuote {average cash : ℚ} {position : Position}
    (hanswer : createOrder (request intent) = .ok response)
    (hexecuted : 0 < response.filled.getD 0) (haverage : response.average = some average)
    (hpos : 0 < average) (hfee : response.feeCost = some fee.cost) :
    let Taken := intent.symbol = position.symbol ∧
      (intent.side = .sell → response.filled.getD 0 ≤ position.quantity)
    let Booked := ∃ e u, submit createOrder clock intent = .ok e ∧
      applyExecutionIn .default cash position e = .ok u ∧
      u.cashQuote - cash = fee.quoteChange intent.side (response.filled.getD 0) average ∧
      u.position.quantity - position.quantity =
        fee.baseChange intent.side (response.filled.getD 0)
    (Booked → Taken) ∧
      ((∀ fill, Reports response intent fill → LedgerUpdate.RoomFor ⟨cash, position, 0⟩ fill) →
        (Booked ↔ fee.InQuote ∧ Taken)) := by
  intro Taken Booked
  have hprice : response.executedPrice = some average := by
    simp [OrderResponse.executedPrice, haverage, orElse, hpos.ne']
  have hdecodes : Decodes response := by
    refine ⟨⟨average, hprice, hpos⟩, ?_⟩
    rw [hfee, Option.getD_some]
    exact fee.cost_nonneg
  -- the answer decodes, so it becomes one fill at the average
  obtain ⟨e, fill, he, hfills, hreports⟩ :
      ∃ e fill, submit createOrder clock intent = .ok e ∧ e.fills = [fill] ∧
        Reports response intent fill := exists_fill_of_decodes hanswer hexecuted hdecodes
  have hfillprice : fill.price = average := Option.some.inj (hreports.price.symm.trans hprice)
  have htaken : Booked → Taken := by
    rintro ⟨e', u, he', hfold, -, -⟩
    cases he.symm.trans he'
    obtain ⟨hsymbol, hcovered⟩ := applyExecutionIn_covered hfills hfold
    exact ⟨hreports.symbol ▸ hsymbol,
      fun hsell => hreports.quantity ▸ hcovered (hreports.side.trans hsell)⟩
  refine ⟨htaken, fun hroom => ?_⟩
  -- what the fill moves follows the venue where the fee is in the quote
  have hfollows := hreports.follows_venue_iff hfee
  rw [hreports.quantity, hfillprice] at hfollows
  rw [← hfollows]
  have hroom := hroom fill hreports
  -- with room for its digits the ledger moves by just that
  constructor
  · intro hbooked
    refine ⟨?_, htaken hbooked⟩
    obtain ⟨e', u, he', hfold, hcash, hquantity⟩ := hbooked
    cases he.symm.trans he'
    obtain ⟨hcash', hquantity'⟩ := applyExecutionIn_moved hfills hroom hfold
    exact ⟨by rw [← hcash, hcash']; ring, by rw [← hquantity, hquantity']; ring⟩
  · rintro ⟨⟨hcash, hquantity⟩, hsymbol, hcovered⟩
    obtain ⟨u, hfold⟩ : ∃ u, applyExecutionIn .default cash position e = .ok u :=
      exists_applyExecutionIn hfills (hreports.symbol.trans hsymbol) fun hsell =>
        hreports.quantity ▸ hcovered (hreports.side ▸ hsell)
    obtain ⟨hcash', hquantity'⟩ := applyExecutionIn_moved hfills hroom hfold
    exact ⟨e, u, he, hfold, by rw [hcash', ← hcash]; ring, by rw [hquantity', ← hquantity]; ring⟩

end CcxtSandboxExchange

/-! ## A fee in base -/

/-- The lot of the witness is positive. -/
private theorem lot_pos : (0 : ℚ) < 1 := by decide

/-- So is its price. -/
private theorem lotPrice_pos : (0 : ℚ) < 100 := by decide

/-- A buy of one at 100. -/
def buyOne : OrderIntent where
  clientOrderId := "BTCUSDT-15m-1767267900-buy"
  symbol := "BTC/USDT"
  side := .buy
  quantity := 1
  referencePrice := 100
  createdAt := noon
  quantity_pos := lot_pos
  referencePrice_pos := lotPrice_pos

/-- No fee is not negative. -/
private theorem nothing_nonneg : (0 : ℚ) ≤ 0 := le_rfl

/-- No position. -/
def noPosition : Position := ⟨"BTC/USDT", 0, 0, nothing_nonneg, nothing_nonneg⟩

/-- A fee of a thousandth in quote. -/
def feeInQuote : VenueFee := ⟨1 / 1000, .quote, by decide +kernel⟩

/-- A fee of a thousandth in base. -/
def feeInBase : VenueFee := ⟨1 / 1000, .base, by decide +kernel⟩

/-- What buying one at 100 with a fee makes of an account of 1000. -/
def boughtOne (fee : VenueFee) : Except Error LedgerUpdate := do
  let e ← CcxtSandboxExchange.submit (fillingVenue (some 100) (some fee.cost)) noon buyOne
  applyExecutionIn .default 1000 noPosition e

/-- The fee in quote is booked as the venue takes it. -/
theorem fee_booked_iff_inQuote_quote : ∃ e u,
    CcxtSandboxExchange.submit (fillingVenue (some 100) (some feeInQuote.cost)) noon buyOne =
        .ok e ∧
      applyExecutionIn .default 1000 noPosition e = .ok u ∧
      u.cashQuote - 1000 = feeInQuote.quoteChange .buy 1 100 ∧
      u.position.quantity - noPosition.quantity = feeInQuote.baseChange .buy 1 := by
  have hanswer : fillingVenue (some 100) (some feeInQuote.cost)
      (CcxtSandboxExchange.request buyOne) =
      .ok ⟨some "venue-1", some "closed", some 1, some 100, none, some feeInQuote.cost⟩ := rfl
  obtain ⟨-, hbooked⟩ := CcxtSandboxExchange.fee_booked_iff_inQuote hanswer (by decide) rfl
    (by decide) rfl
  refine (hbooked fun fill hfill => ?_).mpr ⟨.inl rfl, rfl, fun hsell => nomatch hsell⟩
  -- what the fill moves and leaves has few digits
  have hprice : fill.price = 100 := (Option.some.inj hfill.price).symm
  constructor <;>
    simp only [Fill.cashFlow, Fill.signedQuantity, Fill.notional, hfill.side, hfill.quantity,
      hprice, hfill.feeQuote] <;> decide +kernel

/-- The venue takes the fee in base from what it bought, and the ledger takes it from the
    cash. -/
theorem feeInBase_misbooked : ∃ e u,
    CcxtSandboxExchange.submit (fillingVenue (some 100) (some feeInBase.cost)) noon buyOne =
        .ok e ∧
      applyExecutionIn .default 1000 noPosition e = .ok u ∧
      u.cashQuote - 1000 = -(100 + 1 / 1000) ∧ feeInBase.quoteChange .buy 1 100 = -100 ∧
      u.position.quantity - noPosition.quantity = 1 ∧
      feeInBase.baseChange .buy 1 = 1 - 1 / 1000 := by
  have hbought : (boughtOne feeInBase).toOption.any (fun u =>
      u.cashQuote - 1000 = -(100 + 1 / 1000) ∧
        u.position.quantity - noPosition.quantity = 1) = true := by
    decide +kernel
  obtain ⟨u, hok, htest⟩ := Except.exists_of_any hbought
  obtain ⟨hcash, hquantity⟩ := of_decide_eq_true htest
  obtain ⟨e, he, hfold⟩ := Except.bind_eq_ok.mp hok
  exact ⟨e, u, he, hfold, hcash, by decide +kernel, hquantity, by decide +kernel⟩

end TradingBot
