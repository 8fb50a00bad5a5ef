import TradingBot.Spec.SnapshotShape

/-!
# Which settings the simulator works with

The walk behind the candles never falls below a cent, but the price it starts at, the low
of a bar and the price a sale fills at may, and the domain model refuses what rounds to
zero. At the other end rounding to the cent raises for a price or a fee that needs more digits
than the decimal context has, and a product raises when the context has no room for its
exponent. Some order is too large for every configuration. For orders of up to a quantity the
simulator works exactly when none of this happens and the window starts in year 1 or later.
-/

namespace TradingBot

open FixedPoint

namespace SimulatedExchange

/-- A fetch returns, and so does every order of a kind at the last price it returned. -/
def WorksFor (x : SimulatedExchange) (clock : Instant) (symbol timeframe : String) (limit : ℕ)
    (orders : OrderIntent → Prop) (A : DecimalContext := .exact) : Prop :=
  ∃ s, x.fetchSnapshot clock symbol timeframe limit A = .ok s ∧
    ∀ (submitClock : Instant) (intent : OrderIntent), intent.referencePrice = s.lastPrice →
      orders intent → ∃ e, x.submit submitClock intent A = .ok e

/-- A fetch returns, and so does every order at the last price it returned. -/
def Works (x : SimulatedExchange) (clock : Instant) (symbol timeframe : String) (limit : ℕ)
    (A : DecimalContext := .exact) : Prop :=
  x.WorksFor clock symbol timeframe limit (fun _ => True) A

/-- A sale at a price fills for at least half a cent, and a buy for a price that can be rounded
    to the cent. -/
def FillsFit (x : SimulatedExchange) (price : ℚ) : Prop :=
  halfCent ≤ x.slippedPrice .sell price ∧ x.slippedPrice .buy price < priceBound - halfCent

/-- The fee of a buy of a quantity at a price can be computed and rounded to the cent. -/
def FeeFits (x : SimulatedExchange) (price quantity : ℚ) : Prop :=
  let fillPrice := roundPrice (x.slippedPrice .buy price)
  x.FeeInRange quantity fillPrice ∧ x.charged quantity fillPrice < priceBound - halfCent

variable {x : SimulatedExchange} {rng : ℕ → CandleDraws} {limit : ℕ}

/-! ## Fetching -/

/-- The snapshot ends with the price the walk ends at, to the cent. -/
theorem fetchSnapshot_lastPrice {A : DecimalContext} {clock : Instant} {symbol timeframe : String}
    (hlimit : 0 < limit) {s : MarketSnapshot}
    (h : x.fetchSnapshot clock symbol timeframe limit A = .ok s) :
    roundPriceIn A (x.walk (x.random (x.seedString symbol timeframe)) limit A) =
      .ok s.lastPrice := by
  obtain ⟨-, firstOpen, step, -, hbars⟩ := fetchSnapshot_eq_ok h
  obtain ⟨turns, rfl⟩ : ∃ turns, limit = turns + 1 := ⟨limit - 1, by omega⟩
  exact (candle_okIn (last_bar hlimit hbars)).2.2.2.1

/-! ## Fees -/

/-- A larger order at a higher price is charged more. -/
theorem charged_mono (hfee : 0 ≤ x.feeBps) {quantity quantity' price price' : ℚ}
    (hquantity : 0 ≤ quantity) (hprice : 0 ≤ price) (hquantities : quantity ≤ quantity')
    (hprices : price ≤ price') : x.charged quantity price ≤ x.charged quantity' price' := by
  have hbps := bps_pos
  have hnotional :=
    rounded_mono (mul_le_mul hquantities hprices hprice (hquantity.trans hquantities))
  have hproduct := rounded_mono (mul_le_mul_of_nonneg_right hnotional hfee)
  exact rounded_mono (div_le_div_of_nonneg_right hproduct hbps.le)

/-- What is rounded keeps at least half of its value. -/
private theorem half_le_rounded {value : ℚ} (h : 0 ≤ value) : value / 2 ≤ rounded value := by
  obtain ⟨δ, hδ, hvalue⟩ := rounded_factor value
  have hsmall : roundoff ≤ 1 / 2 := by norm_num [roundoff]
  have hfactor : (1 / 2 : ℚ) ≤ 1 + δ := by linarith [neg_le_of_abs_le hδ]
  rw [hvalue, div_eq_mul_one_div]
  exact mul_le_mul_of_nonneg_left hfactor h

/-- A larger order at a higher price has a fee that is harder to compute. -/
theorem feeInRange_mono (hfee : 0 ≤ x.feeBps) {quantity quantity' price price' : ℚ}
    (hquantity : 0 ≤ quantity) (hprice : 0 ≤ price) (hquantities : quantity ≤ quantity')
    (hprices : price ≤ price') (h : x.FeeInRange quantity' price') :
    x.FeeInRange quantity price := by
  have hmul := mul_le_mul hquantities hprices hprice (hquantity.trans hquantities)
  have hnonneg := mul_nonneg hquantity hprice
  have hnotional := rounded_mono hmul
  have hproduct := rounded_mono (mul_le_mul_of_nonneg_right hnotional hfee)
  -- without a sign, what is smaller is in range with what is larger
  have hinRange : ∀ {a b : ℚ}, 0 ≤ a → a ≤ b → InRange b → InRange a := fun ha hab hb =>
    (abs_le_abs_of_nonneg ha hab).trans_lt hb
  exact ⟨hinRange (rounded_nonneg hnonneg) hnotional h.1,
    hinRange (rounded_nonneg (mul_nonneg (rounded_nonneg hnonneg) hfee)) hproduct h.2⟩

/-- Some order is so large that its notional overflows, whatever the price. -/
theorem exists_not_feeInRange (x : SimulatedExchange) {price : ℚ} (hprice : 0 < price) :
    ∃ quantity, 0 < quantity ∧ ¬x.FeeInRange quantity price := by
  have hbound : 0 < DecimalContext.overflowBound := by
    unfold DecimalContext.overflowBound
    positivity
  -- rounding keeps at least half of twice the bound
  let quantity := 2 * DecimalContext.overflowBound / price
  refine ⟨quantity, by positivity, fun hrange => ?_⟩
  have hnotional : quantity * price / 2 = DecimalContext.overflowBound := by
    simp only [quantity]
    field_simp
  have hlarge := half_le_rounded (mul_pos (by positivity : 0 < quantity) hprice).le
  rw [hnotional] at hlarge
  exact absurd hrange.1 ((le_abs_self _).trans' hlarge).not_gt

/-! ## Submitting -/

/-- An order is filled exactly when its price does not round to zero, both its price and its fee
    can be rounded to the cent, and the products of the fee do not overflow. -/
theorem exists_submit_default_iff (hfee : 0 ≤ x.feeBps) (clock : Instant) (intent : OrderIntent) :
    (∃ e, x.submit clock intent .default = .ok e) ↔
      halfCent ≤ x.slippedPrice intent.side intent.referencePrice ∧
        x.slippedPrice intent.side intent.referencePrice < priceBound - halfCent ∧
        x.FeeInRange intent.quantity
          (roundPrice (x.slippedPrice intent.side intent.referencePrice)) ∧
        x.charged intent.quantity
          (roundPrice (x.slippedPrice intent.side intent.referencePrice)) <
            priceBound - halfCent := by
  have hquantity := intent.quantity_pos
  constructor
  -- an execution has a price and a fee, so both could be rounded
  · rintro ⟨e, he⟩
    obtain ⟨-, -, f, -, -, -, -, -, hprice, hcharged⟩ := submit_okIn he
    rw [fillPriceIn_default] at hprice
    rw [feeIn_default] at hcharged
    have hlt := lt_of_roundPriceIn hprice
    obtain ⟨hrounded, -⟩ := roundPriceIn_default.mp hprice
    rw [hrounded] at hcharged
    have hpos : 0 < roundPrice (x.slippedPrice intent.side intent.referencePrice) :=
      hrounded ▸ f.price_pos
    exact ⟨roundPrice_pos_iff.mp hpos, hlt, hcharged.1, lt_of_roundPriceIn hcharged.2⟩
  · rintro ⟨hlow, hhigh, hrange, hcharge⟩
    have hpos := roundPrice_pos_iff.mpr hlow
    have hnonneg := x.charged_nonneg hfee hquantity.le hpos.le
    have hprice := fillPriceIn_default.mpr
      (roundPriceIn_default_of_nonneg (halfCent_pos.le.trans hlow) hhigh)
    have hcharged := feeIn_default.mpr ⟨hrange, roundPriceIn_default_of_nonneg hnonneg hcharge⟩
    -- the fill passes its checks
    have hchecks : AllHold (Fill.checks intent.quantity
        (roundPrice (x.slippedPrice intent.side intent.referencePrice))
        (roundPrice (x.charged intent.quantity
          (roundPrice (x.slippedPrice intent.side intent.referencePrice))))) :=
      ⟨hquantity, hpos, roundTo_nonneg hnonneg, trivial⟩
    simp [submit, hprice, hcharged, Fill.validate,
      validated_of_holds hchecks, bind, Except.bind, pure, Except.pure]

/-- A price that the simulator quotes. -/
structure Quoted (price : ℚ) : Prop where
  pos : 0 < price
  cents : price ∈ Grid ℚ priceDigits
  lt : price < priceBound

/-- A quoted price has no more digits than the context. -/
theorem Quoted.digits {price : ℚ} (h : Quoted price) : rounded price = price :=
  rounded_of_cents h.cents ((abs_of_pos h.pos).trans_lt h.lt)

/-- A quoted price is at least half a cent. -/
theorem Quoted.ge {price : ℚ} (h : Quoted price) : halfCent ≤ price := by
  rw [← roundPrice_pos_iff, roundPrice, roundTo_of_mem h.cents]
  exact h.pos

/-- What a rounding to the cent returned as a price is one that is quoted. -/
theorem quoted_of_roundPriceIn {price result : ℚ} (h : roundPriceIn .default price = .ok result)
    (hpos : 0 < result) : Quoted result := by
  obtain ⟨rfl, hlt⟩ := roundPriceIn_default.mp h
  exact ⟨hpos, roundTo_mem _ _, (le_abs_self _).trans_lt hlt⟩

/-- An order at a quoted price. -/
private def orderOf (side : OrderSide) {price : ℚ} (h : Quoted price) (quantity : ℚ)
    (hquantity : 0 < quantity) : OrderIntent :=
  ⟨"", "", side, quantity, price, 0, hquantity, h.pos⟩

/-- The prices of a sale and of a buy decide those of every order. -/
private theorem fits_of_fillsFit (hslippage : 0 ≤ x.slippageBps) {price : ℚ} (h : Quoted price)
    (hfits : x.FillsFit price) (side : OrderSide) :
    halfCent ≤ x.slippedPrice side price ∧ x.slippedPrice side price < priceBound - halfCent ∧
      x.slippedPrice side price ≤ x.slippedPrice .buy price := by
  obtain ⟨hsale, hbuy⟩ := x.slippedPrice_between hslippage h.pos.le
  rw [h.digits] at hsale hbuy
  cases side with
  | buy => exact ⟨h.ge.trans hbuy, hfits.2, le_rfl⟩
  | sell => exact ⟨hfits.1, (hsale.trans hbuy).trans_lt hfits.2, hsale.trans hbuy⟩

/-- Every order at a quoted price of up to a quantity is filled exactly when a sale and a buy
    are, and the fee of a buy of all of it can be rounded. -/
theorem forall_submit_upTo_iff (hfee : 0 ≤ x.feeBps) (hslippage : 0 ≤ x.slippageBps) {price : ℚ}
    (h : Quoted price) {most : ℚ} (hmost : 0 < most) :
    (∀ (clock : Instant) (intent : OrderIntent), intent.referencePrice = price →
      intent.quantity ≤ most → ∃ e, x.submit clock intent .default = .ok e) ↔
      x.FillsFit price ∧ x.FeeFits price most := by
  constructor
  · intro hall
    obtain ⟨hsale, -, -⟩ := (exists_submit_default_iff hfee 0 (orderOf .sell h most hmost)).mp
      (hall 0 _ rfl le_rfl)
    obtain ⟨-, hbuy, hrange, hcharge⟩ := (exists_submit_default_iff hfee 0
      (orderOf .buy h most hmost)).mp (hall 0 _ rfl le_rfl)
    exact ⟨⟨hsale, hbuy⟩, hrange, hcharge⟩
  · rintro ⟨hfits, hrange, hcharge⟩ clock intent rfl hle
    obtain ⟨hlow, hhigh, hbuy⟩ := fits_of_fillsFit hslippage h hfits intent.side
    have hprice := (roundPrice_pos_iff.mpr hlow).le
    refine (exists_submit_default_iff hfee clock intent).mpr ⟨hlow, hhigh, ?_, ?_⟩
    -- no order is charged more than a buy of the largest quantity
    · exact feeInRange_mono hfee intent.quantity_pos.le hprice hle (roundPrice_mono hbuy) hrange
    · exact (charged_mono hfee intent.quantity_pos.le hprice hle
        (roundPrice_mono hbuy)).trans_lt hcharge

/-- At no price is every order filled. -/
theorem not_forall_submit (hfee : 0 ≤ x.feeBps) (hslippage : 0 ≤ x.slippageBps) {price : ℚ}
    (h : Quoted price) :
    ¬∀ (clock : Instant) (intent : OrderIntent), intent.referencePrice = price →
      ∃ e, x.submit clock intent .default = .ok e := by
  intro hall
  -- whatever the size, the fee of it would fit
  have hupTo : ∀ most, 0 < most → x.FeeFits price most := fun most hmost =>
    ((forall_submit_upTo_iff hfee hslippage h hmost).mp fun clock intent hprice _ =>
      hall clock intent hprice).2
  obtain ⟨-, hbuy⟩ := x.slippedPrice_between hslippage h.pos.le
  rw [h.digits] at hbuy
  obtain ⟨quantity, hquantity, hlarge⟩ :=
    x.exists_not_feeInRange (roundPrice_pos_iff.mpr (h.ge.trans hbuy))
  exact hlarge (hupTo quantity hquantity).1

end SimulatedExchange

/-! ## Which settings it works with -/

namespace Settings

open SimulatedExchange

/-- The simulator of accepted settings fills no order that is too large. For orders of up to a
    quantity it works exactly when the window starts in range, the prices of the walk and of the
    fills at its end fit, and so does the fee of a buy of that quantity. -/
theorem simulatedExchange_works_iff (settings : Settings) (random : String → ℕ → CandleDraws)
    (clock : Instant) (symbol timeframe : String) (step : Duration) (limit : ℕ)
    (hparse : parseTimeframe timeframe = .ok step) (hclock : InDatetimeRange clock)
    (hlimit : 0 < limit) :
    let x := settings.simulatedExchange random
    let rng := random (x.seedString symbol timeframe)
    let last := roundPrice (x.priceAt rng limit)
    ¬x.Works clock symbol timeframe limit .default ∧
      ∀ most, 0 < most →
        (x.WorksFor clock symbol timeframe limit (fun intent => intent.quantity ≤ most) .default ↔
          StartsInRange clock step limit ∧ x.PricesFit rng limit ∧ x.FillsFit last ∧
            x.FeeFits last most) := by
  intro x rng last
  have hfetch : (∃ s, x.fetchSnapshot clock symbol timeframe limit .default = .ok s) ↔
      StartsInRange clock step limit ∧ x.PricesFit rng limit :=
    exists_fetchSnapshot_iff hparse hclock hlimit
  -- whatever is fetched, its last price is the one the walk ends at
  have hquoted : ∀ s, x.fetchSnapshot clock symbol timeframe limit .default = .ok s →
      s.lastPrice = last ∧ Quoted last := by
    intro s hs
    have hround := fetchSnapshot_lastPrice hlimit hs
    have hlast : s.lastPrice = last := (roundPriceIn_default.mp hround).1
    exact ⟨hlast, hlast ▸ quoted_of_roundPriceIn hround s.lastPrice_pos⟩
  constructor
  · rintro ⟨s, hs, hsubmit⟩
    obtain ⟨hlast, hq⟩ := hquoted s hs
    exact not_forall_submit settings.feeBps_nonneg settings.slippageBps_nonneg hq
      fun submitClock intent hprice => hsubmit submitClock intent (hprice.trans hlast.symm) trivial
  · intro most hmost
    have hdecides : Quoted last → ((∀ (submitClock : Instant) (intent : OrderIntent),
        intent.referencePrice = last → intent.quantity ≤ most →
          ∃ e, x.submit submitClock intent .default = .ok e) ↔
        x.FillsFit last ∧ x.FeeFits last most) := fun hq =>
      forall_submit_upTo_iff settings.feeBps_nonneg settings.slippageBps_nonneg hq hmost
    constructor
    · rintro ⟨s, hs, hsubmit⟩
      obtain ⟨hlast, hq⟩ := hquoted s hs
      obtain ⟨hstart, hprices⟩ := hfetch.mp ⟨s, hs⟩
      exact ⟨hstart, hprices, (hdecides hq).mp (hlast ▸ hsubmit)⟩
    · rintro ⟨hstart, hprices, hrest⟩
      obtain ⟨s, hs⟩ := hfetch.mpr ⟨hstart, hprices⟩
      obtain ⟨hlast, hq⟩ := hquoted s hs
      exact ⟨s, hs, hlast ▸ (hdecides hq).mpr hrest⟩

/-- The default settings with a start price. -/
def startingAt (startPrice : ℚ) (hpos : 0 < startPrice) : Settings where
  simulatorStartPrice := startPrice
  checked := by simpa [SettingsFields.checks] using hpos
  sandboxed := rfl
  fast_lt_slow := by simp
  slow_lt_limit := by simp
  credentials := by simp [SettingsFields.HasCredentials]

/-- The default start price, in a market that stands still at noon: it works for orders of up
    to a million units. -/
theorem simulatedExchange_works_default :
    ((startingAt 30000 (by decide)).simulatedExchange fun _ _ => stillDraws).WorksFor noon
      "BTC/USDT" "15m" 200 (fun intent => intent.quantity ≤ 1000000) .default := by
  have hlast : ((startingAt 30000 (by decide)).simulatedExchange
      fun _ _ => stillDraws).priceAt (fun _ => stillDraws) 200 = 30000 :=
    priceAt_still stillDraws_still (by decide +kernel) (by decide +kernel) 200
  refine ((simulatedExchange_works_iff (startingAt 30000 (by decide)) (fun _ _ => stillDraws) noon
    "BTC/USDT" "15m" 900000000 200 (by decide) (by unfold InDatetimeRange; decide)
    (by decide)).2 1000000 (by norm_num)).mpr ⟨by unfold StartsInRange; decide, ?_, ?_, ?_⟩
  · exact fun turn _ =>
      barFits_of_still stillDraws_still (by unfold RoundsToCents; decide +kernel) turn
  · rw [hlast]
    unfold FillsFit
    decide +kernel
  · rw [hlast]
    unfold FeeFits FeeInRange InRange
    decide +kernel

/-- A start price of four tenths of a cent is accepted, but the first bar opens at zero, so that
    not even the fetch returns. -/
theorem simulatedExchange_not_works_fourMills :
    let x := (startingAt (4 / 1000) (by decide +kernel)).simulatedExchange fun _ _ => stillDraws
    (¬∃ s, x.fetchSnapshot noon "BTC/USDT" "15m" 200 .default = .ok s) ∧
      ¬x.Works noon "BTC/USDT" "15m" 200 .default := by
  intro x
  have hfetch : ¬∃ s, x.fetchSnapshot noon "BTC/USDT" "15m" 200 .default = .ok s := by
    intro hs
    have hparse : parseTimeframe "15m" = .ok 900000000 := by decide
    obtain ⟨-, hprices⟩ := (exists_fetchSnapshot_iff hparse
      (by unfold InDatetimeRange; decide) (by decide)).mp hs
    -- the walk opens at the start price, which rounds to zero
    have hfirst := (hprices 0 (by decide)).low
    revert hfirst
    decide +kernel
  exact ⟨hfetch, fun ⟨s, hs, _⟩ => hfetch ⟨s, hs⟩⟩

end Settings

end TradingBot
