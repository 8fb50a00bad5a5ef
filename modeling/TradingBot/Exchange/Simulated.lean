import TradingBot.Exchange.Base
import TradingBot.Exchange.Timeframes
import TradingBot.ForMathlib.Except
import TradingBot.ForMathlib.List
import TradingBot.Python.Decimal

/-!
# The simulated exchange

A deterministic in-process venue. The random generator of the standard library enters
as a function of the seed string: equal seed strings give equal draws.

Prices and fees are computed in a decimal context, which comes last and is the exact one where
none is named. In the default context rounding to the cent raises when the result would need
more digits than the context has, and a product raises when its exponent is out of range.
-/

namespace TradingBot

open FixedPoint

/-- Basis points in one. -/
def bps : ℚ := 10000

/-- `BPS` is positive. -/
theorem bps_pos : 0 < bps := by norm_num [bps]

/-- The number of decimals of `PRICE_STEP`. -/
def priceDigits : ℕ := 2

/-- To the cent, half up. -/
def roundPrice (value : ℚ) : ℚ := roundTo priceDigits value

/-- `_round`. -/
def roundPriceIn (A : DecimalContext) (value : ℚ) : Except Error ℚ :=
  A.roundHalfUp priceDigits value

/-- A division by `BPS`, which is not zero, so that it does not signal. -/
def perBps (A : DecimalContext) (value : ℚ) : ℚ := (A.div value bps).toOption.getD 0

/-- With exact numbers, basis points are a division. -/
@[simp] theorem perBps_exact (value : ℚ) : perBps .exact value = value / bps := rfl

/-- The draws of one turn of the candle loop, in the order they are made: the price
    shock, the drifts of high and low, and the volume. -/
structure CandleDraws where
  shock : ℚ
  highDrift : ℚ
  lowDrift : ℚ
  volume : ℕ
  volume_bounds : 1 ≤ volume ∧ volume < 1000
  deriving DecidableEq, Repr

structure SimulatedExchange where
  seed : ℤ
  startPrice : ℚ
  volatilityBps : ℚ
  feeBps : ℚ
  slippageBps : ℚ
  /-- `random.Random`: the draws, turn by turn, of the generator seeded with a string. -/
  random : String → ℕ → CandleDraws

namespace SimulatedExchange

/-! ## Market data -/

/-- `_next_price`. -/
def nextPriceIn (x : SimulatedExchange) (A : DecimalContext) (price gauss : ℚ) :
    Except Error ℚ := do
  let shock := perBps A (← A.checkedMul gauss x.volatilityBps)
  -- never below a cent, however deep the fall
  return max (1 / 100) (← A.checkedMul price (A.add 1 shock))

/-- The price that `_next_price` returns, where nothing overflows. -/
def nextPrice (x : SimulatedExchange) (price gauss : ℚ) (A : DecimalContext := .exact) : ℚ :=
  let shock := perBps A (A.mul gauss x.volatilityBps)
  max (1 / 100) (A.mul price (A.add 1 shock))

/-- `_drift`. -/
def driftIn (x : SimulatedExchange) (A : DecimalContext) (gauss : ℚ) : Except Error ℚ := do
  return perBps A (← A.checkedMul |gauss| x.volatilityBps)

/-- The drift that `_drift` returns, where nothing overflows. -/
def drift (x : SimulatedExchange) (gauss : ℚ) (A : DecimalContext := .exact) : ℚ :=
  perBps A (A.mul |gauss| x.volatilityBps)

/-- The candle of one turn of the loop, from the price it opens at. -/
def candle (x : SimulatedExchange) (symbol : String) (openTime : Instant) (openPrice : ℚ)
    (draws : CandleDraws) (A : DecimalContext := .exact) : Except Error Candle := do
  let closePrice ← x.nextPriceIn A openPrice draws.shock
  let highDrift ← x.driftIn A draws.highDrift
  let high ← A.checkedMul (max openPrice closePrice) (A.add 1 highDrift)
  let lowDrift ← x.driftIn A draws.lowDrift
  let low ← A.checkedMul (min openPrice closePrice) (A.sub 1 lowDrift)
  let open_ ← roundPriceIn A openPrice
  let high ← roundPriceIn A (max (max high openPrice) closePrice)
  let low ← roundPriceIn A (min (min low openPrice) closePrice)
  let close ← roundPriceIn A closePrice
  Candle.validate symbol openTime open_ high low close draws.volume

/-- The loop from turn `index` on, with the unrounded price carried from turn to turn. -/
def candlesFrom (x : SimulatedExchange) (symbol : String) (firstOpen : Instant) (step : Duration)
    (rng : ℕ → CandleDraws) (count index : ℕ) (price : ℚ) (A : DecimalContext := .exact) :
    Except Error (List Candle) :=
  match count with
  | 0 => .ok []
  | count + 1 => do
    let openTime ← datetime (firstOpen + step * index)
    let c ← x.candle symbol openTime price (rng index) A
    -- the next bar opens at the unrounded close of this one, which did not overflow
    let rest ← candlesFrom x symbol firstOpen step rng count (index + 1)
      (x.nextPrice price (rng index).shock A) A
    return c :: rest

/-- The open time of the first bar of the window fetched at a clock reading, with the
    duration of a bar. -/
def window (clock : Instant) (timeframe : String) (limit : ℕ) :
    Except Error (Instant × Duration) := do
  let step ← parseTimeframe timeframe
  -- the bar that is forming is left out
  let floored ← floorToTimeframe clock timeframe
  let lastOpen ← datetime (floored - step)
  let span ← timedelta (step * ((limit : ℤ) - 1))
  let firstOpen ← datetime (lastOpen - span)
  return (firstOpen, step)

/-- The string the generator is seeded with. -/
def seedString (x : SimulatedExchange) (symbol timeframe : String) : String :=
  toString x.seed ++ ":" ++ symbol ++ ":" ++ timeframe

def fetchSnapshot (x : SimulatedExchange) (clock : Instant) (symbol timeframe : String)
    (limit : ℕ) (A : DecimalContext := .exact) : Except Error MarketSnapshot := do
  let (firstOpen, step) ← window clock timeframe limit
  -- the seed string names no bar: every fetch starts the same draws over at its first one
  let rng := x.random (x.seedString symbol timeframe)
  let candles ← x.candlesFrom symbol firstOpen step rng limit 0 x.startPrice A
  MarketSnapshot.validate symbol timeframe candles

variable {A : DecimalContext}

/-- Where `_next_price` returns, it is the next price. -/
theorem nextPriceIn_ok {x : SimulatedExchange} {price gauss next : ℚ}
    (h : x.nextPriceIn A price gauss = .ok next) : next = x.nextPrice price gauss A := by
  unfold nextPriceIn at h
  obtain ⟨product, hproduct, h⟩ := Except.bind_eq_ok.mp h
  obtain ⟨moved, hmoved, h⟩ := Except.bind_eq_ok.mp h
  cases h
  rw [DecimalContext.checkedMul_ok hmoved, DecimalContext.checkedMul_ok hproduct]
  rfl

/-- The candle of a turn carries the values of the turn, in cents. -/
theorem candle_okIn {x : SimulatedExchange} {symbol : String} {openTime : Instant}
    {openPrice : ℚ} {draws : CandleDraws} {c : Candle}
    (h : x.candle symbol openTime openPrice draws A = .ok c) :
    c.symbol = symbol ∧ c.openTime = openTime ∧ roundPriceIn A openPrice = .ok c.open_ ∧
      roundPriceIn A (x.nextPrice openPrice draws.shock A) = .ok c.close ∧
      c.volume = draws.volume := by
  unfold candle at h
  obtain ⟨closePrice, hnext, h⟩ := Except.bind_eq_ok.mp h
  obtain rfl := nextPriceIn_ok hnext
  -- the two drifts and the products they make
  obtain ⟨_, -, h⟩ := Except.bind_eq_ok.mp h
  obtain ⟨_, -, h⟩ := Except.bind_eq_ok.mp h
  obtain ⟨_, -, h⟩ := Except.bind_eq_ok.mp h
  obtain ⟨_, -, h⟩ := Except.bind_eq_ok.mp h
  obtain ⟨open_, hopen, h⟩ := Except.bind_eq_ok.mp h
  obtain ⟨high, -, h⟩ := Except.bind_eq_ok.mp h
  obtain ⟨low, -, h⟩ := Except.bind_eq_ok.mp h
  obtain ⟨close, hclose, h⟩ := Except.bind_eq_ok.mp h
  obtain ⟨hsym, htime, rfl, -, -, rfl, hvolume⟩ := Candle.validate_ok h
  exact ⟨hsym, htime, hopen, hclose, hvolume⟩

/-- The values of a candle of the exact walk. -/
theorem candle_ok {x : SimulatedExchange} {symbol : String} {openTime : Instant}
    {openPrice : ℚ} {draws : CandleDraws} {c : Candle}
    (h : x.candle symbol openTime openPrice draws = .ok c) :
    c.symbol = symbol ∧ c.openTime = openTime ∧ c.open_ = roundPrice openPrice ∧
      c.close = roundPrice (x.nextPrice openPrice draws.shock) ∧ c.volume = draws.volume := by
  obtain ⟨hsym, htime, hopen, hclose, hvolume⟩ := candle_okIn h
  exact ⟨hsym, htime, (Except.ok.inj hopen).symm, (Except.ok.inj hclose).symm, hvolume⟩

/-! ## The walk behind the candles -/

/-- The unrounded price each turn of the loop opens at. -/
def walk (x : SimulatedExchange) (rng : ℕ → CandleDraws) (index : ℕ)
    (A : DecimalContext := .exact) : ℚ :=
  match index with
  | 0 => x.startPrice
  | index + 1 => x.nextPrice (x.walk rng index A) (rng index).shock A

/-- The candle of a turn of the loop. -/
def bar (x : SimulatedExchange) (symbol : String) (firstOpen : Instant) (step : Duration)
    (rng : ℕ → CandleDraws) (index : ℕ) (A : DecimalContext := .exact) : Except Error Candle :=
  x.candle symbol (firstOpen + step * index) (x.walk rng index A) (rng index) A

section Walk

variable {x : SimulatedExchange} {symbol : String} {firstOpen : Instant} {step : Duration}
  {rng : ℕ → CandleDraws}

/-- One turn of the candle loop: the opening time is in range, the candle is accepted and the loop
    goes on from the next price. -/
private theorem candlesFrom_succ_ok {count index : ℕ} {price : ℚ} {cs : List Candle} :
    x.candlesFrom symbol firstOpen step rng (count + 1) index price A = .ok cs ↔
      InDatetimeRange (firstOpen + step * index) ∧ ∃ c rest, cs = c :: rest ∧
        x.candle symbol (firstOpen + step * index) price (rng index) A = .ok c ∧
        x.candlesFrom symbol firstOpen step rng count (index + 1)
          (x.nextPrice price (rng index).shock A) A = .ok rest := by
  rw [candlesFrom]
  constructor
  · intro h
    obtain ⟨openTime, htime, h⟩ := Except.bind_eq_ok.mp h
    obtain ⟨c, hcandle, h⟩ := Except.bind_eq_ok.mp h
    obtain ⟨rest, hrest, h⟩ := Except.bind_eq_ok.mp h
    cases h
    obtain ⟨rfl, hrange⟩ := datetime_eq_ok.mp htime
    exact ⟨hrange, c, rest, rfl, hcandle, hrest⟩
  · rintro ⟨hrange, c, rest, rfl, hcandle, hrest⟩
    simp [datetime_eq_ok.mpr ⟨rfl, hrange⟩, hcandle, hrest, bind, Except.bind, pure, Except.pure]

/-- The candles are the bars of the turns, in order. -/
theorem candlesFrom_ok {count index : ℕ} {cs : List Candle} :
    x.candlesFrom symbol firstOpen step rng count index (x.walk rng index A) A = .ok cs ↔
      (∀ k, index ≤ k → k < index + count → InDatetimeRange (firstOpen + step * k)) ∧
      List.Forall₂ (fun k c => x.bar symbol firstOpen step rng k A = .ok c)
        (List.range' index count) cs := by
  -- on the bars still to come, from any turn of the loop
  induction count generalizing index cs with
  | zero =>
    rw [candlesFrom]
    constructor
    · rintro ⟨⟩
      exact ⟨fun k hk hk' => by omega, .nil⟩
    · rintro ⟨-, hbars⟩
      cases hbars
      rfl
  | succ count ih =>
    -- the price the loop carries is where the walk stands
    have hwalk : x.nextPrice (x.walk rng index A) (rng index).shock A =
        x.walk rng (index + 1) A := rfl
    rw [candlesFrom_succ_ok, List.range'_succ, List.forall₂_cons_left_iff, hwalk]
    simp only [ih]
    constructor
    · rintro ⟨hrange, c, rest, rfl, hcandle, hranges, hbars⟩
      refine ⟨fun k hk hk' => ?_, c, rest, hcandle, hbars, rfl⟩
      rcases hk.eq_or_lt with rfl | hk
      · exact hrange
      · exact hranges k hk (by omega)
    · rintro ⟨hranges, c, rest, hcandle, hbars, rfl⟩
      exact ⟨hranges index le_rfl (by omega), c, rest, rfl, hcandle,
        fun k hk hk' => hranges k (by omega) (by omega), hbars⟩

end Walk

/-! ## Windows and snapshots -/

/-- A window starts on a bar, and both its ends are moments. -/
theorem window_ok {clock : Instant} {timeframe : String} {limit : ℕ} {firstOpen : Instant}
    {step : Duration} (h : window clock timeframe limit = .ok (firstOpen, step)) :
    0 < step ∧ parseTimeframe timeframe = .ok step ∧ step ∣ firstOpen ∧
      InDatetimeRange firstOpen ∧ InDatetimeRange (firstOpen + step * ((limit : ℤ) - 1)) := by
  unfold window at h
  obtain ⟨d, hparse, h⟩ := Except.bind_eq_ok.mp h
  obtain ⟨floored, hfloored, h⟩ := Except.bind_eq_ok.mp h
  obtain ⟨lastOpen, hlast, h⟩ := Except.bind_eq_ok.mp h
  obtain ⟨span, hspan, h⟩ := Except.bind_eq_ok.mp h
  obtain ⟨first, hfirst, h⟩ := Except.bind_eq_ok.mp h
  cases h
  obtain ⟨rfl, hlast_range⟩ := datetime_eq_ok.mp hlast
  obtain ⟨rfl, hfirst_range⟩ := datetime_eq_ok.mp hfirst
  -- the first bar opens a whole number of steps before the floor
  have hdvd := floorToTimeframe_ok hparse hfloored
  rw [timedelta_ok hspan] at hfirst_range ⊢
  refine ⟨parseTimeframe_pos hparse, hparse, ?_, hfirst_range, ?_⟩
  · exact Int.dvd_sub (Int.dvd_sub hdvd (Int.dvd_refl _)) (Int.dvd_mul_right _ _)
  · rwa [sub_add_cancel]

/-- Exactly the windows that start in year 1 or later can be fetched. -/
theorem window_eq_ok {clock first : Instant} {timeframe : String} {limit : ℕ} {step d : Duration}
    (hparse : parseTimeframe timeframe = .ok step) (hclock : InDatetimeRange clock)
    (hlimit : 0 < limit) :
    window clock timeframe limit = .ok (first, d) ↔
      d = step ∧ first = step * (clock / step) - step * limit ∧ minDatetime ≤ first := by
  have hstep := parseTimeframe_pos hparse
  have hfloor : step * (clock / step) ≤ clock := Int.mul_ediv_self_le hstep.ne'
  have hspan : 0 ≤ step * ((limit : ℤ) - 1) :=
    mul_nonneg hstep.le (sub_nonneg.mpr (by exact_mod_cast hlimit))
  -- the newest closed bar and the span before it make up the whole window
  have hfirst : step * (clock / step) - step - step * ((limit : ℤ) - 1) =
      step * (clock / step) - step * limit := by ring
  unfold window
  simp only [hparse, bind, Except.bind]
  constructor
  · intro h
    obtain ⟨floored, hfloored, h⟩ := Except.bind_eq_ok.mp h
    obtain ⟨lastOpen, hlast, h⟩ := Except.bind_eq_ok.mp h
    obtain ⟨span, hspan', h⟩ := Except.bind_eq_ok.mp h
    obtain ⟨first', hfirst', h⟩ := Except.bind_eq_ok.mp h
    cases h
    obtain ⟨rfl, -⟩ := (floorToTimeframe_eq_ok hparse hclock).mp hfloored
    obtain ⟨rfl, -⟩ := datetime_eq_ok.mp hlast
    obtain ⟨rfl, hrange⟩ := datetime_eq_ok.mp hfirst'
    rw [timedelta_ok hspan', hfirst] at hrange ⊢
    exact ⟨rfl, rfl, hrange.1⟩
  · rintro ⟨rfl, rfl, hmin⟩
    -- the first bar is the only one that can be out of range
    have hmax := hclock.2
    have hfloored : floorToTimeframe clock timeframe = .ok (d * (clock / d)) :=
      (floorToTimeframe_eq_ok hparse hclock).mpr ⟨rfl, by linarith⟩
    have hlast : datetime (d * (clock / d) - d) = .ok (d * (clock / d) - d) :=
      datetime_eq_ok.mpr ⟨rfl, by linarith, by linarith⟩
    have hspan' : timedelta (d * ((limit : ℤ) - 1)) = .ok (d * ((limit : ℤ) - 1)) :=
      timedelta_of_le (by linarith [hclock.1]) (by linarith [hclock.1])
    have hfirst' : datetime (d * (clock / d) - d * limit) = .ok (d * (clock / d) - d * limit) :=
      datetime_eq_ok.mpr ⟨rfl, hmin, by linarith⟩
    simp only [hfloored, hlast, hspan', hfirst, hfirst', pure, Except.pure]

/-- A fetch returns the bars of its window. -/
theorem fetchSnapshot_eq_ok {x : SimulatedExchange} {clock : Instant} {symbol timeframe : String}
    {limit : ℕ} {s : MarketSnapshot}
    (h : x.fetchSnapshot clock symbol timeframe limit A = .ok s) :
    s.symbol = symbol ∧ ∃ firstOpen step, window clock timeframe limit = .ok (firstOpen, step) ∧
      List.Forall₂ (fun k c => x.bar symbol firstOpen step
        (x.random (x.seedString symbol timeframe)) k A = .ok c) (List.range' 0 limit)
        s.candles := by
  unfold fetchSnapshot at h
  obtain ⟨⟨firstOpen, step⟩, hwindow, h⟩ := Except.bind_eq_ok.mp h
  obtain ⟨candles, hcandles, h⟩ := Except.bind_eq_ok.mp h
  obtain ⟨hsym, -, rfl⟩ := MarketSnapshot.validate_ok h
  exact ⟨hsym, firstOpen, step, hwindow, (candlesFrom_ok.mp hcandles).2⟩

/-- A fetch returns when its window is one of at least one bar and every bar is accepted. -/
theorem exists_fetchSnapshot {x : SimulatedExchange} {clock : Instant}
    {symbol timeframe : String} {limit : ℕ} {firstOpen : Instant} {step : Duration}
    (hwindow : window clock timeframe limit = .ok (firstOpen, step)) (hlimit : 0 < limit)
    (hbars : ∀ k < limit, ∃ c, x.bar symbol firstOpen step
      (x.random (x.seedString symbol timeframe)) k A = .ok c) :
    ∃ s, x.fetchSnapshot clock symbol timeframe limit A = .ok s := by
  obtain ⟨hstep, -, -, hfirst, hlast⟩ := window_ok hwindow
  -- the moments between the two ends of the window are moments too
  have hranges : ∀ k, 0 ≤ k → k < 0 + limit → InDatetimeRange (firstOpen + step * k) := by
    intro k _ hk
    have hle : (k : ℤ) ≤ (limit : ℤ) - 1 := by omega
    have hbefore := mul_le_mul_of_nonneg_left hle hstep.le
    have hafter : 0 ≤ step * (k : ℤ) := by positivity
    exact ⟨by linarith [hfirst.1], by linarith [hlast.2]⟩
  have hpartners : ∀ k ∈ List.range' 0 limit, ∃ c, x.bar symbol firstOpen step
      (x.random (x.seedString symbol timeframe)) k A = .ok c :=
    fun k hk => hbars k (by simpa using hk)
  obtain ⟨candles, hcandles⟩ := List.Forall₂.exists_of_forall hpartners
  have hfrom : x.candlesFrom symbol firstOpen step (x.random (x.seedString symbol timeframe))
      limit 0 x.startPrice A = .ok candles := candlesFrom_ok.mpr ⟨hranges, hcandles⟩
  have hsnapshot : ∃ s, MarketSnapshot.validate symbol timeframe candles = .ok s := by
    refine MarketSnapshot.validate_of_ascending _ ?_ ?_ fun c hc => ?_
    · rintro rfl
      have hlength := hcandles.length_eq
      rw [List.length_range', List.length_nil] at hlength
      omega
    · -- bars are a positive step apart
      have htimes : (List.range' 0 limit).map (fun k : ℕ => firstOpen + step * (k : ℤ)) =
          candles.map Candle.openTime :=
        hcandles.map_eq fun k c hbar => (candle_okIn hbar).2.1.symm
      rw [← htimes, List.pairwise_map]
      refine (List.pairwise_lt_range' 1).imp fun {a b} hab => ?_
      have hlt : (a : ℤ) < b := by exact_mod_cast hab
      linarith [mul_lt_mul_of_pos_left hlt hstep]
    · obtain ⟨k, -, hbar⟩ := hcandles.exists_mem_left hc
      exact (candle_okIn hbar).1
  obtain ⟨s, hs⟩ := hsnapshot
  exact ⟨s, by simp [fetchSnapshot, hwindow, hfrom, hs, bind, Except.bind]⟩

/-- A fetched snapshot is of the symbol asked for and is marked in cents. -/
theorem fetchSnapshot_ok {x : SimulatedExchange} {clock : Instant} {symbol timeframe : String}
    {limit : ℕ} {s : MarketSnapshot} (h : x.fetchSnapshot clock symbol timeframe limit = .ok s) :
    s.symbol = symbol ∧ s.lastPrice ∈ Grid ℚ priceDigits := by
  obtain ⟨hsym, firstOpen, step, -, hbars⟩ := fetchSnapshot_eq_ok h
  obtain ⟨k, -, hbar⟩ := hbars.exists_mem_left s.last_mem
  refine ⟨hsym, ?_⟩
  rw [MarketSnapshot.lastPrice, (candle_ok hbar).2.2.2.1]
  exact roundTo_mem _ _

/-! ## Orders -/

/-- `_signed_slippage`: slippage always works against the bot. -/
def signedSlippage (x : SimulatedExchange) (side : OrderSide) : ℚ :=
  let magnitude := x.slippageBps / bps
  match side with
  | .buy => magnitude
  | .sell => -magnitude

/-- The price an order fills at: the slipped reference price, to the cent. -/
def fillPrice (x : SimulatedExchange) (side : OrderSide) (referencePrice : ℚ) : ℚ :=
  roundPrice (referencePrice * (1 + x.signedSlippage side))

/-- The fee of a fill, to the cent. -/
def fee (x : SimulatedExchange) (quantity price : ℚ) : ℚ :=
  roundPrice (quantity * price * x.feeBps / bps)

/-- The price an order fills at, in a context. -/
def fillPriceIn (x : SimulatedExchange) (A : DecimalContext) (side : OrderSide)
    (referencePrice : ℚ) : Except Error ℚ := do
  let magnitude := perBps A x.slippageBps
  let slippage := match side with
    | .buy => magnitude
    | .sell => A.neg magnitude
  roundPriceIn A (← A.checkedMul referencePrice (A.add 1 slippage))

/-- The fee of a fill, in a context. -/
def feeIn (x : SimulatedExchange) (A : DecimalContext) (quantity price : ℚ) : Except Error ℚ := do
  let notional ← A.checkedMul quantity price
  roundPriceIn A (perBps A (← A.checkedMul notional x.feeBps))

def submit (x : SimulatedExchange) (clock : Instant) (intent : OrderIntent)
    (A : DecimalContext := .exact) : Except Error OrderExecution := do
  let price ← x.fillPriceIn A intent.side intent.referencePrice
  let fee ← x.feeIn A intent.quantity price
  let fill ← Fill.validate intent.clientOrderId intent.symbol intent.side intent.quantity price
    fee clock
  return { intent, status := .filled, venueOrderId := some ("sim-" ++ intent.clientOrderId)
           fills := [fill], rejectionReason := none }

/-- An execution of the simulator is one complete fill at the slipped price. -/
theorem submit_okIn {x : SimulatedExchange} {clock : Instant} {intent : OrderIntent}
    {e : OrderExecution} (h : x.submit clock intent A = .ok e) :
    e.intent = intent ∧ e.status = .filled ∧ ∃ f, e.fills = [f] ∧
      f.clientOrderId = intent.clientOrderId ∧ f.symbol = intent.symbol ∧
      f.side = intent.side ∧ f.quantity = intent.quantity ∧
      x.fillPriceIn A intent.side intent.referencePrice = .ok f.price ∧
      x.feeIn A intent.quantity f.price = .ok f.feeQuote := by
  unfold submit at h
  obtain ⟨price, hprice, h⟩ := Except.bind_eq_ok.mp h
  obtain ⟨fee, hfee, h⟩ := Except.bind_eq_ok.mp h
  obtain ⟨f, hfill, h⟩ := Except.bind_eq_ok.mp h
  cases h
  obtain ⟨hid, hsym, hside, hq, rfl, rfl, -⟩ := Fill.validate_ok hfill
  exact ⟨rfl, rfl, f, rfl, hid, hsym, hside, hq, hprice, hfee⟩

/-- With exact arithmetic price and fee are the exact ones. -/
theorem submit_ok {x : SimulatedExchange} {clock : Instant} {intent : OrderIntent}
    {e : OrderExecution} (h : x.submit clock intent = .ok e) :
    e.intent = intent ∧ e.status = .filled ∧ ∃ f, e.fills = [f] ∧
      f.clientOrderId = intent.clientOrderId ∧ f.symbol = intent.symbol ∧
      f.side = intent.side ∧ f.quantity = intent.quantity ∧
      f.price = x.fillPrice intent.side intent.referencePrice ∧
      f.feeQuote = x.fee intent.quantity (x.fillPrice intent.side intent.referencePrice) := by
  obtain ⟨hintent, hstatus, f, hfills, hid, hsym, hside, hq, hprice, hfee⟩ := submit_okIn h
  have hslipped : f.price = x.fillPrice intent.side intent.referencePrice := by
    unfold fillPrice signedSlippage
    cases hdirection : intent.side <;> rw [hdirection] at hprice <;>
      exact (Except.ok.inj hprice).symm
  exact ⟨hintent, hstatus, f, hfills, hid, hsym, hside, hq, hslipped,
    hslipped ▸ (Except.ok.inj hfee).symm⟩

/-- The simulator as a gateway: its clock is read once when market data is fetched and
    once when an order is filled. -/
def gateway (x : SimulatedExchange) (fetchClock submitClock : Instant)
    (A : DecimalContext := .exact) : Gateway where
  fetchSnapshot symbol timeframe limit := x.fetchSnapshot fetchClock symbol timeframe limit A
  submit intent := x.submit submitClock intent A
  submit_intent _ _ h := (submit_okIn h).1

end SimulatedExchange

end TradingBot
