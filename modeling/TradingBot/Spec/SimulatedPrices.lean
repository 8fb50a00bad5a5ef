import TradingBot.Exchange.Simulated
import TradingBot.Spec.DecimalRounding
import TradingBot.Spec.Scenario

/-!
# Simulated prices in the default context

The walk of the prices rounds to 28 digits, and rounding a price to the cent raises when it
needs more. A bar is accepted exactly when no product on the way to its prices overflows, its low
does not round to zero, and its high can be rounded at all; the other prices lie between the two.
-/

namespace TradingBot

open FixedPoint

/-- Prices of 10 ^ 26 and above have more than 28 digits when they are written to the cent. -/
def priceBound : ℚ := 10 ^ 26

/-- The bound is a price of two decimals. -/
theorem priceBound_mem : priceBound ∈ Grid ℚ priceDigits :=
  mem_grid.mpr ⟨10 ^ 28, by norm_num [priceBound, priceDigits]⟩

/-- Half of `PRICE_STEP`: the least price that does not round to zero. -/
def halfCent : ℚ := 1 / 200

/-- Half a cent is positive. -/
theorem halfCent_pos : 0 < halfCent := by norm_num [halfCent]

/-- Half a cent is half a unit of the grid. -/
private theorem half_div_eq : (1 / 2 / 10 ^ priceDigits : ℚ) = halfCent := by
  norm_num [priceDigits, halfCent]

/-- Rounding to cents keeps the order. -/
theorem roundPrice_mono : Monotone roundPrice := roundTo_mono priceDigits

/-- A price stays positive exactly from half a cent on. -/
theorem roundPrice_pos_iff {price : ℚ} : 0 < roundPrice price ↔ halfCent ≤ price := by
  rw [roundPrice, roundTo_pos_iff, half_div_eq]

/-- A price stays below the bound exactly where it is half a cent below it. -/
theorem roundPrice_lt_iff {price : ℚ} :
    roundPrice price < priceBound ↔ price < priceBound - halfCent := by
  rw [roundPrice, roundTo_lt_iff priceBound_mem (by norm_num [priceBound]), half_div_eq]

/-- Rounding to the cent in the default context is exact or raises. -/
theorem roundPriceIn_default {price result : ℚ} :
    roundPriceIn .default price = .ok result ↔
      result = roundPrice price ∧ |roundPrice price| < priceBound := by
  have hdigits : |roundTo priceDigits price| * 10 ^ priceDigits <
      10 ^ DecimalArithmetic.precision ↔ |roundPrice price| < priceBound := by
    norm_num [priceDigits, DecimalArithmetic.precision, priceBound, roundPrice]
    constructor <;> intro h <;> linarith
  change DecimalArithmetic.quantized priceDigits (roundPrice price) = _ ↔ _
  unfold DecimalArithmetic.quantized
  unfold roundPrice at hdigits ⊢
  simp only [hdigits]
  split
  next hfits =>
    rw [Except.ok.injEq, eq_comm]
    exact (and_iff_left hfits).symm
  next hwide => exact iff_of_false (by simp) fun h => hwide h.2

/-- What rounds to a price can be rounded when it is more than half a cent below the bound. -/
theorem roundPriceIn_default_of_nonneg {price : ℚ} (hnonneg : 0 ≤ price)
    (hlt : price < priceBound - halfCent) :
    roundPriceIn .default price = .ok (roundPrice price) := by
  refine roundPriceIn_default.mpr ⟨rfl, ?_⟩
  have hrounded : 0 ≤ roundPrice price := roundTo_nonneg hnonneg
  rw [abs_of_nonneg hrounded]
  exact roundPrice_lt_iff.mpr hlt

/-- What was rounded to the cent is more than half a cent below the bound. -/
theorem lt_of_roundPriceIn {price result : ℚ} (h : roundPriceIn .default price = .ok result) :
    price < priceBound - halfCent :=
  roundPrice_lt_iff.mp ((le_abs_self _).trans_lt (roundPriceIn_default.mp h).2)

/-- In the default context, basis points are a division and its rounding: `BPS` is not zero, so
    that nothing is signalled. -/
theorem perBps_default (value : ℚ) : perBps .default value = rounded (value / bps) := by
  change (DecimalArithmetic.default.div value bps).toOption.getD 0 = _
  have hdiv : DecimalArithmetic.default.div value bps = .ok (rounded (value / bps)) := by
    simp [DecimalArithmetic.default, bps_pos.ne', rounded]
  rw [hdiv]
  rfl

/-- Rounding to the precision of the context keeps the order. -/
theorem rounded_mono : Monotone rounded := roundSig_mono (by decide) (by decide)

/-- A number whose exponent the default context has room for. -/
def InRange (value : ℚ) : Prop := |value| < DecimalContext.overflowBound

/-- Numbers of up to a million digits are in range. -/
theorem inRange_of_lt {value : ℚ} (digits : ℕ)
    (hdigits : digits ≤ DecimalContext.maxExponent + 1) (h : |value| < 10 ^ digits) :
    InRange value := by
  unfold InRange DecimalContext.overflowBound
  push_cast
  exact h.trans_le (pow_le_pow_right₀ (by norm_num) hdigits)

/-- Prices that can be rounded are far from the end of the range. -/
theorem inRange_of_lt_priceBound {value : ℚ} (hnonneg : 0 ≤ value) (h : value < priceBound) :
    InRange value :=
  inRange_of_lt 26 (by decide) (by rwa [abs_of_nonneg hnonneg])

/-- A product of the default context is rounded, and its exponent is in range. -/
theorem checkedMul_default {x y product : ℚ} :
    DecimalContext.default.checkedMul x y = .ok product ↔
      product = rounded (x * y) ∧ InRange (rounded (x * y)) := by
  have hoverflows : DecimalContext.default.overflows (DecimalContext.default.mul x y) =
      decide (DecimalContext.overflowBound ≤ |rounded (x * y)|) := rfl
  unfold DecimalContext.checkedMul InRange
  rw [hoverflows]
  simp only [decide_eq_true_eq]
  split
  next hwide => exact iff_of_false (by simp) fun h => hwide.not_gt h.2
  next hfits =>
    rw [Except.ok.injEq, eq_comm]
    exact (and_iff_left (not_le.mp hfits)).symm

/-- A number of cents below the bound has no more digits than the context. -/
theorem rounded_of_cents {price : ℚ} (hcents : price ∈ Grid ℚ priceDigits)
    (hlt : |price| < priceBound) : rounded price = price := by
  have hbound : priceBound = 10 ^ 26 := rfl
  exact roundSig_of_mem_grid hcents (hbound ▸ hlt) (by decide)

/-- A price that rounds to the cent, neither to zero nor past the bound. -/
def RoundsToCents (price : ℚ) : Prop := halfCent ≤ price ∧ price < priceBound - halfCent

/-- The smaller of two prices that can be rounded can be rounded. -/
theorem RoundsToCents.min {a b : ℚ} (ha : RoundsToCents a) (hb : RoundsToCents b) :
    RoundsToCents (min a b) := ⟨le_min ha.1 hb.1, min_lt_of_left_lt ha.2⟩

/-- So can the larger. -/
theorem RoundsToCents.max {a b : ℚ} (ha : RoundsToCents a) (hb : RoundsToCents b) :
    RoundsToCents (max a b) := ⟨le_max_of_le_left ha.1, max_lt ha.2 hb.2⟩

/-- A price that rounds to the cent is in range. -/
theorem RoundsToCents.inRange {price : ℚ} (h : RoundsToCents price) : InRange price :=
  inRange_of_lt_priceBound (halfCent_pos.le.trans h.1) (by linarith [h.2, halfCent_pos])

/-- A price that rounds to the cent does so after it was rounded to the context. -/
theorem RoundsToCents.kept {price : ℚ} (h : RoundsToCents price) :
    RoundsToCents (rounded price) := by
  obtain ⟨hlow, hhigh⟩ := h
  have hhalf : rounded halfCent = halfCent := by decide +kernel
  refine ⟨hhalf.ge.trans (rounded_mono hlow), ?_⟩
  -- just below the bound the last of 28 digits is that of the cents
  have hcents : ((10 : ℕ) : ℚ) ^ (-2 : ℤ) = 1 / 100 ∧
      ((10 : ℕ) : ℚ) ^ ((DecimalArithmetic.precision : ℤ) + -2) = priceBound := by decide +kernel
  have hstep := roundSig_add_unit_le (b := 10) (p := DecimalArithmetic.precision) (e := -2)
    (x := price) (by decide) (by decide) (by
      rw [hcents.1, hcents.2]
      unfold halfCent at hhigh
      linarith)
  rw [hcents.1, hcents.2] at hstep
  unfold halfCent rounded
  linarith

namespace SimulatedExchange

variable {x : SimulatedExchange} {symbol timeframe : String} {clock firstOpen : Instant}
  {step : Duration} {limit turn : ℕ} {rng : ℕ → CandleDraws}

/-- The unrounded price a turn of the loop opens at, as the process computes it. -/
def priceAt (x : SimulatedExchange) (rng : ℕ → CandleDraws) (turn : ℕ) : ℚ :=
  x.walk rng turn .default

/-- The least of the four prices of a bar, before it is rounded to the cent. -/
def lowestPrice (x : SimulatedExchange) (rng : ℕ → CandleDraws) (turn : ℕ) : ℚ :=
  let open_ := x.priceAt rng turn
  let close := x.priceAt rng (turn + 1)
  let drift := x.drift (rng turn).lowDrift .default
  min (min (rounded (min open_ close * rounded (1 - drift))) open_) close

/-- The greatest of the four prices of a bar, before it is rounded to the cent. -/
def highestPrice (x : SimulatedExchange) (rng : ℕ → CandleDraws) (turn : ℕ) : ℚ :=
  let open_ := x.priceAt rng turn
  let close := x.priceAt rng (turn + 1)
  let drift := x.drift (rng turn).highDrift .default
  max (max (rounded (max open_ close * rounded (1 + drift))) open_) close

/-- The products behind the next price do not overflow. -/
def NextInRange (x : SimulatedExchange) (price gauss : ℚ) : Prop :=
  let product := rounded (gauss * x.volatilityBps)
  InRange product ∧ InRange (rounded (price * rounded (1 + perBps .default product)))

/-- The product behind a drift does not overflow. -/
def DriftInRange (x : SimulatedExchange) (gauss : ℚ) : Prop :=
  InRange (rounded (|gauss| * x.volatilityBps))

/-- The next price is computed exactly when its products do not overflow. -/
theorem nextPriceIn_default {price gauss next : ℚ} :
    x.nextPriceIn .default price gauss = .ok next ↔
      next = x.nextPrice price gauss .default ∧ x.NextInRange price gauss := by
  constructor
  · intro h
    have hnext := nextPriceIn_ok h
    unfold nextPriceIn at h
    obtain ⟨product, hproduct, h⟩ := Except.bind_eq_ok.mp h
    obtain ⟨moved, hmoved, -⟩ := Except.bind_eq_ok.mp h
    obtain ⟨rfl, hfirst⟩ := checkedMul_default.mp hproduct
    exact ⟨hnext, hfirst, (checkedMul_default.mp hmoved).2⟩
  · rintro ⟨rfl, hfirst, hsecond⟩
    exact Except.bind_eq_ok.mpr ⟨_, checkedMul_default.mpr ⟨rfl, hfirst⟩,
      Except.bind_eq_ok.mpr ⟨_, checkedMul_default.mpr ⟨rfl, hsecond⟩, rfl⟩⟩

/-- A drift is computed exactly when its product does not overflow. -/
theorem driftIn_default {gauss drift : ℚ} :
    x.driftIn .default gauss = .ok drift ↔
      drift = x.drift gauss .default ∧ x.DriftInRange gauss := by
  unfold driftIn
  constructor
  · intro h
    obtain ⟨product, hproduct, h⟩ := Except.bind_eq_ok.mp h
    obtain ⟨rfl, hrange⟩ := checkedMul_default.mp hproduct
    cases h
    exact ⟨rfl, hrange⟩
  · rintro ⟨rfl, hrange⟩
    exact Except.bind_eq_ok.mpr ⟨_, checkedMul_default.mpr ⟨rfl, hrange⟩, rfl⟩

/-- The products of a turn of the loop do not overflow. -/
structure TurnInRange (x : SimulatedExchange) (rng : ℕ → CandleDraws) (turn : ℕ) : Prop where
  next : x.NextInRange (x.priceAt rng turn) (rng turn).shock
  highDrift : x.DriftInRange (rng turn).highDrift
  high : InRange (rounded (max (x.priceAt rng turn) (x.priceAt rng (turn + 1)) *
    rounded (1 + x.drift (rng turn).highDrift .default)))
  lowDrift : x.DriftInRange (rng turn).lowDrift
  low : InRange (rounded (min (x.priceAt rng turn) (x.priceAt rng (turn + 1)) *
    rounded (1 - x.drift (rng turn).lowDrift .default)))

/-- The prices of a bar can be computed, and they are at least half a cent and more than half a
    cent below the bound. -/
structure BarFits (x : SimulatedExchange) (rng : ℕ → CandleDraws) (turn : ℕ) : Prop where
  inRange : x.TurnInRange rng turn
  low : halfCent ≤ x.lowestPrice rng turn
  high : x.highestPrice rng turn < priceBound - halfCent

/-- A bar is accepted exactly when its prices fit. -/
theorem exists_bar_iff :
    (∃ c, x.bar symbol firstOpen step rng turn .default = .ok c) ↔ x.BarFits rng turn := by
  -- every price of the bar lies between the lowest and the highest
  have hopen : x.lowestPrice rng turn ≤ x.priceAt rng turn ∧
      x.priceAt rng turn ≤ x.highestPrice rng turn :=
    ⟨(min_le_left _ _).trans (min_le_right _ _), (le_max_right _ _).trans (le_max_left _ _)⟩
  have hclose : x.lowestPrice rng turn ≤ x.priceAt rng (turn + 1) ∧
      x.priceAt rng (turn + 1) ≤ x.highestPrice rng turn :=
    ⟨min_le_right _ _, le_max_right _ _⟩
  constructor
  · rintro ⟨c, hbar⟩
    unfold bar candle at hbar
    -- the close, the drifts and the products that make high and low
    obtain ⟨_, hnext, hbar⟩ := Except.bind_eq_ok.mp hbar
    obtain ⟨rfl, hnextRange⟩ := nextPriceIn_default.mp hnext
    obtain ⟨_, hdrift, hbar⟩ := Except.bind_eq_ok.mp hbar
    obtain ⟨rfl, hhighDrift⟩ := driftIn_default.mp hdrift
    obtain ⟨_, hproduct, hbar⟩ := Except.bind_eq_ok.mp hbar
    obtain ⟨rfl, hhighRange⟩ := checkedMul_default.mp hproduct
    obtain ⟨_, hdrift, hbar⟩ := Except.bind_eq_ok.mp hbar
    obtain ⟨rfl, hlowDrift⟩ := driftIn_default.mp hdrift
    obtain ⟨_, hproduct, hbar⟩ := Except.bind_eq_ok.mp hbar
    obtain ⟨rfl, hlowRange⟩ := checkedMul_default.mp hproduct
    -- the four prices in cents
    obtain ⟨open_, -, hbar⟩ := Except.bind_eq_ok.mp hbar
    obtain ⟨high, hhigh, hbar⟩ := Except.bind_eq_ok.mp hbar
    obtain ⟨low, hlow, hbar⟩ := Except.bind_eq_ok.mp hbar
    obtain ⟨close, -, hbar⟩ := Except.bind_eq_ok.mp hbar
    obtain ⟨rfl, -⟩ := roundPriceIn_default.mp hlow
    obtain ⟨-, -, -, -, hlow, -⟩ := Candle.validate_ok hbar
    exact ⟨⟨hnextRange, hhighDrift, hhighRange, hlowDrift, hlowRange⟩,
      roundPrice_pos_iff.mp (lt_of_lt_of_eq c.low_pos hlow), lt_of_roundPriceIn hhigh⟩
  · rintro ⟨hrange, hlow, hhigh⟩
    have hround : ∀ price, x.lowestPrice rng turn ≤ price → price ≤ x.highestPrice rng turn →
        roundPriceIn .default price = .ok (roundPrice price) := fun price hle hge =>
      roundPriceIn_default_of_nonneg (halfCent_pos.le.trans (hlow.trans hle)) (hge.trans_lt hhigh)
    obtain ⟨c, hc⟩ := Candle.validate_of_bounds symbol (firstOpen + step * turn)
      (roundPrice_pos_iff.mpr hlow) (Nat.cast_nonneg (rng turn).volume)
      ⟨roundPrice_mono hopen.1, roundPrice_mono hopen.2⟩
      ⟨roundPrice_mono hclose.1, roundPrice_mono hclose.2⟩
    refine ⟨c, Except.bind_eq_ok.mpr ⟨_, nextPriceIn_default.mpr ⟨rfl, hrange.next⟩, ?_⟩⟩
    refine Except.bind_eq_ok.mpr ⟨_, driftIn_default.mpr ⟨rfl, hrange.highDrift⟩, ?_⟩
    refine Except.bind_eq_ok.mpr ⟨_, checkedMul_default.mpr ⟨rfl, hrange.high⟩, ?_⟩
    refine Except.bind_eq_ok.mpr ⟨_, driftIn_default.mpr ⟨rfl, hrange.lowDrift⟩, ?_⟩
    refine Except.bind_eq_ok.mpr ⟨_, checkedMul_default.mpr ⟨rfl, hrange.low⟩, ?_⟩
    refine Except.bind_eq_ok.mpr ⟨_, hround _ hopen.1 hopen.2, ?_⟩
    refine Except.bind_eq_ok.mpr ⟨_, hround (x.highestPrice rng turn)
      (hopen.1.trans hopen.2) le_rfl, ?_⟩
    refine Except.bind_eq_ok.mpr ⟨_, hround (x.lowestPrice rng turn) le_rfl
      (hopen.1.trans hopen.2), ?_⟩
    exact Except.bind_eq_ok.mpr ⟨_, hround _ hclose.1 hclose.2, hc⟩

/-- The prices of the first bars fit. -/
def PricesFit (x : SimulatedExchange) (rng : ℕ → CandleDraws) (limit : ℕ) : Prop :=
  ∀ turn < limit, x.BarFits rng turn

/-- The first bar of the window opens at a moment that a `datetime` can hold. -/
def StartsInRange (clock : Instant) (step : Duration) (limit : ℕ) : Prop :=
  minDatetime ≤ step * (clock / step) - step * limit

/-- A window that was fetched starts in range, whatever context computed its prices. -/
theorem startsInRange_of_fetch {A : DecimalContext} (hparse : parseTimeframe timeframe = .ok step)
    (hclock : InDatetimeRange clock) (hlimit : 0 < limit) {s : MarketSnapshot}
    (h : x.fetchSnapshot clock symbol timeframe limit A = .ok s) :
    StartsInRange clock step limit := by
  obtain ⟨-, firstOpen, d, hwindow, -⟩ := fetchSnapshot_eq_ok h
  obtain ⟨rfl, rfl, hstart⟩ := (window_eq_ok hparse hclock hlimit).mp hwindow
  exact hstart

/-- A fetch returns exactly when its window starts in range and all of its prices fit. -/
theorem exists_fetchSnapshot_iff (hparse : parseTimeframe timeframe = .ok step)
    (hclock : InDatetimeRange clock) (hlimit : 0 < limit) :
    (∃ s, x.fetchSnapshot clock symbol timeframe limit .default = .ok s) ↔
      StartsInRange clock step limit ∧
        x.PricesFit (x.random (x.seedString symbol timeframe)) limit := by
  constructor
  · rintro ⟨s, hs⟩
    refine ⟨startsInRange_of_fetch hparse hclock hlimit hs, fun k hk => ?_⟩
    obtain ⟨-, firstOpen, d, -, hbars⟩ := fetchSnapshot_eq_ok hs
    obtain ⟨c, -, hbar⟩ := hbars.exists_mem_right (show k ∈ List.range' 0 limit by simpa using hk)
    exact exists_bar_iff.mp ⟨c, hbar⟩
  · rintro ⟨hstart, hprices⟩
    have hwindow := (window_eq_ok hparse hclock hlimit).mpr ⟨rfl, rfl, hstart⟩
    exact exists_fetchSnapshot hwindow hlimit fun k hk => exists_bar_iff.mpr (hprices k hk)

/-! ## The price and the fee of an order -/

/-- The price an order is slipped to before it is rounded to the cent. -/
def slippedPrice (x : SimulatedExchange) (side : OrderSide) (price : ℚ) : ℚ :=
  let magnitude := rounded (x.slippageBps / bps)
  let slippage := match side with
    | .buy => magnitude
    | .sell => rounded (-magnitude)
  rounded (price * rounded (1 + slippage))

/-- The fee of an order before it is rounded to the cent. -/
def charged (x : SimulatedExchange) (quantity price : ℚ) : ℚ :=
  rounded (rounded (rounded (quantity * price) * x.feeBps) / bps)

/-- The products behind a fee do not overflow. -/
def FeeInRange (x : SimulatedExchange) (quantity price : ℚ) : Prop :=
  InRange (rounded (quantity * price)) ∧ InRange (rounded (rounded (quantity * price) * x.feeBps))

/-- In the default context a fill is at the slipped price, rounded to cents where that is
    possible. A price that can be rounded did not overflow. -/
theorem fillPriceIn_default {side : OrderSide} {price result : ℚ} :
    x.fillPriceIn .default side price = .ok result ↔
      roundPriceIn .default (x.slippedPrice side price) = .ok result := by
  have hproduct : x.fillPriceIn .default side price =
      DecimalContext.default.checkedMul price (DecimalContext.default.add 1
        (match side with
          | .buy => rounded (x.slippageBps / bps)
          | .sell => rounded (-rounded (x.slippageBps / bps)))) >>=
        roundPriceIn .default := by
    unfold fillPriceIn
    simp only [perBps_default]
    cases side <;> rfl
  rw [hproduct]
  constructor
  · intro h
    obtain ⟨_, hslipped, h⟩ := Except.bind_eq_ok.mp h
    obtain ⟨rfl, -⟩ := checkedMul_default.mp hslipped
    exact h
  · intro h
    have hrange : InRange (x.slippedPrice side price) := by
      have hsmall := (roundPriceIn_default.mp h).2
      have hnear := abs_roundTo_sub_le priceDigits (x.slippedPrice side price)
      rw [half_div_eq] at hnear
      have hclose := abs_sub_abs_le_abs_sub (x.slippedPrice side price)
        (roundPrice (x.slippedPrice side price))
      rw [abs_sub_comm, roundPrice] at hclose
      refine inRange_of_lt 27 (by decide) ?_
      unfold roundPrice priceBound at hsmall
      unfold halfCent at hnear
      linarith
    exact Except.bind_eq_ok.mpr ⟨_, checkedMul_default.mpr ⟨rfl, hrange⟩, h⟩

/-- In the default context the fee is what is charged, rounded to cents where that is possible
    and no product overflows. -/
theorem feeIn_default {quantity price result : ℚ} :
    x.feeIn .default quantity price = .ok result ↔ x.FeeInRange quantity price ∧
      roundPriceIn .default (x.charged quantity price) = .ok result := by
  have hcharged : x.charged quantity price =
      perBps .default (rounded (rounded (quantity * price) * x.feeBps)) := by
    rw [perBps_default]
    rfl
  rw [hcharged]
  unfold feeIn
  constructor
  · intro h
    obtain ⟨_, hnotional, h⟩ := Except.bind_eq_ok.mp h
    obtain ⟨rfl, hfirst⟩ := checkedMul_default.mp hnotional
    obtain ⟨_, hproduct, h⟩ := Except.bind_eq_ok.mp h
    obtain ⟨rfl, hsecond⟩ := checkedMul_default.mp hproduct
    exact ⟨⟨hfirst, hsecond⟩, h⟩
  · rintro ⟨⟨hfirst, hsecond⟩, h⟩
    exact Except.bind_eq_ok.mpr ⟨_, checkedMul_default.mpr ⟨rfl, hfirst⟩,
      Except.bind_eq_ok.mpr ⟨_, checkedMul_default.mpr ⟨rfl, hsecond⟩, h⟩⟩

/-- Slippage lowers the price of a sale and raises that of a buy. -/
theorem slippedPrice_between (hslippage : 0 ≤ x.slippageBps) {price : ℚ} (hnonneg : 0 ≤ price) :
    x.slippedPrice .sell price ≤ rounded price ∧ rounded price ≤ x.slippedPrice .buy price := by
  have hbps := bps_pos
  have hmagnitude : 0 ≤ rounded (x.slippageBps / bps) := rounded_nonneg (by positivity)
  have hone : rounded 1 = 1 := by decide +kernel
  have hzero : rounded 0 = 0 := roundSig_zero
  have hlower : rounded (1 + rounded (-rounded (x.slippageBps / bps))) ≤ 1 := by
    have hneg : rounded (-rounded (x.slippageBps / bps)) ≤ 0 :=
      (rounded_mono (neg_nonpos.mpr hmagnitude)).trans_eq hzero
    exact (rounded_mono (by linarith)).trans_eq hone
  have hraise : 1 ≤ rounded (1 + rounded (x.slippageBps / bps)) :=
    hone.ge.trans (rounded_mono (by linarith))
  exact ⟨rounded_mono (mul_le_of_le_one_right hnonneg hlower),
    rounded_mono (le_mul_of_one_le_right hnonneg hraise)⟩

/-- A fee is not negative. -/
theorem charged_nonneg (hfee : 0 ≤ x.feeBps) {quantity price : ℚ} (hquantity : 0 ≤ quantity)
    (hprice : 0 ≤ price) : 0 ≤ x.charged quantity price := by
  have hbps := bps_pos
  have hnotional := rounded_nonneg (mul_nonneg hquantity hprice)
  exact rounded_nonneg (div_nonneg (rounded_nonneg (mul_nonneg hnotional hfee)) hbps.le)

/-! ## A market that stands still -/

section Still

/-- Draws that move no price. -/
def Still (rng : ℕ → CandleDraws) : Prop :=
  ∀ turn, (rng turn).shock = 0 ∧ (rng turn).highDrift = 0 ∧ (rng turn).lowDrift = 0

/-- The price stands still on these draws. -/
theorem stillDraws_still : Still fun _ => stillDraws := fun _ => ⟨rfl, rfl, rfl⟩

/-- Without a shock the price is only rounded. -/
private theorem nextPrice_still (hstill : Still rng) (price : ℚ) (turn : ℕ) :
    x.nextPrice price (rng turn).shock .default = max (1 / 100) (rounded price) := by
  have hone : DecimalContext.default.add 1 0 = 1 := by decide +kernel
  have hshock : perBps .default (DecimalContext.default.mul (rng turn).shock x.volatilityBps) =
      0 := by
    rw [perBps_default, (hstill turn).1]
    change rounded (rounded (0 * x.volatilityBps) / bps) = 0
    simp [rounded]
  unfold nextPrice
  simp only [hshock, hone]
  change max (1 / 100) (rounded (price * 1)) = _
  rw [mul_one]

/-- The price a turn opens at rounds to the cent if the start price does. -/
private theorem priceAt_roundsToCents (hstill : Still rng) (hstart : RoundsToCents x.startPrice)
    (turn : ℕ) : RoundsToCents (x.priceAt rng turn) := by
  induction turn with
  | zero => exact hstart
  | succ turn ih =>
    change RoundsToCents (x.nextPrice (x.priceAt rng turn) (rng turn).shock .default)
    rw [nextPrice_still hstill]
    have hcent : RoundsToCents (1 / 100) := by unfold RoundsToCents; decide +kernel
    exact hcent.max ih.kept

/-- A market that stands still quotes every bar, if its start price rounds to the cent. -/
theorem barFits_of_still (hstill : Still rng) (hstart : RoundsToCents x.startPrice) (turn : ℕ) :
    x.BarFits rng turn := by
  have hopen := priceAt_roundsToCents hstill hstart turn
  have hclose := priceAt_roundsToCents hstill hstart (turn + 1)
  have hone : rounded (1 - 0) = 1 ∧ rounded (1 + 0) = 1 := by decide +kernel
  have hzero : InRange 0 := inRange_of_lt 0 (by decide) (by norm_num)
  have hnothing : perBps .default 0 = 0 := by rw [perBps_default, zero_div, rounded_zero]
  have hdrift : x.drift 0 .default = 0 := by
    rw [drift, perBps_default]
    change rounded (rounded (|0| * x.volatilityBps) / bps) = 0
    simp [rounded]
  obtain ⟨hshock, hhigh, hlow⟩ := hstill turn
  constructor
  -- every product is zero or a price
  · constructor
    · unfold NextInRange
      simp only [hshock, zero_mul, rounded_zero, hnothing, hone, mul_one]
      exact ⟨hzero, hopen.kept.inRange⟩
    · simpa [DriftInRange, hhigh] using hzero
    · simp only [hhigh, hdrift, hone, mul_one]
      exact (hopen.max hclose).kept.inRange
    · simpa [DriftInRange, hlow] using hzero
    · simp only [hlow, hdrift, hone, mul_one]
      exact (hopen.min hclose).kept.inRange
  · unfold lowestPrice
    simp only [hlow, hdrift, hone, mul_one]
    exact (((hopen.min hclose).kept.min hopen).min hclose).1
  · unfold highestPrice
    simp only [hhigh, hdrift, hone, mul_one]
    exact (((hopen.max hclose).kept.max hopen).max hclose).2

/-- The price itself stands still where the context has room for it. -/
theorem priceAt_still (hstill : Still rng) (hstart : 1 / 100 ≤ x.startPrice)
    (hdigits : rounded x.startPrice = x.startPrice) (turn : ℕ) :
    x.priceAt rng turn = x.startPrice := by
  induction turn with
  | zero => rfl
  | succ turn ih =>
    change x.nextPrice (x.priceAt rng turn) (rng turn).shock .default = _
    rw [nextPrice_still hstill, ih, hdigits, max_eq_right hstart]

end Still

end SimulatedExchange

end TradingBot
