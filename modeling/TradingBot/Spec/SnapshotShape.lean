import TradingBot.Bootstrap
import TradingBot.Cycle
import TradingBot.Spec.CrossoverSignal
import TradingBot.Spec.SimulatedPrices
import TradingBot.Strategy.DecimalCrossover

/-!
# The shape of a simulated snapshot

As long as the rounded prices of its bars are positive and fit the decimal context, and its
window starts in year 1 or later, a fetch returns exactly the bars asked for: aligned on the
epoch, a step apart, each opening at the close before it, and ending with the newest bar that
has closed. That is what the staleness guard of the cycle and the window of the strategy count
on.
-/

namespace TradingBot

open FixedPoint

/-! ## What a snapshot has to be -/

/-- The newest `limit` bars of a duration that are closed at a clock reading. -/
structure MarketSnapshot.Shape (s : MarketSnapshot) (clock : Instant) (step : Duration)
    (limit : ℕ) : Prop where
  length : s.candles.length = limit
  aligned : ∀ c ∈ s.candles, step ∣ c.openTime
  chained : s.candles.IsChain fun a b => b.openTime = a.openTime + step ∧ b.open_ = a.close
  closed : s.asOf + step ≤ clock
  newest : clock < s.asOf + 2 * step

namespace SimulatedExchange

variable {x : SimulatedExchange} {symbol timeframe : String} {clock : Instant} {step : Duration}
  {limit : ℕ} {rng : ℕ → CandleDraws} {A : DecimalContext}

/-! ## The bars of a fetch -/

/-- The last bar of a fetch is the last turn of its window. -/
theorem last_bar {firstOpen : Instant} {s : MarketSnapshot} (hlimit : 0 < limit)
    (hbars : List.Forall₂ (fun k c => x.bar symbol firstOpen step rng k A = .ok c)
      (List.range' 0 limit) s.candles) :
    x.bar symbol firstOpen step rng (limit - 1) A = .ok s.last := by
  have hturns : List.range' 0 limit ≠ [] := by simp; omega
  have hlast := hbars.getLast hturns s.nonempty
  simpa [List.getLast_range', MarketSnapshot.last] using hlast

/-- Two turns of the loop that follow each other give bars that follow each other. -/
private theorem bar_follows {firstOpen : Instant} {k : ℕ} {a b : Candle}
    (ha : x.bar symbol firstOpen step rng k A = .ok a)
    (hb : x.bar symbol firstOpen step rng (k + 1) A = .ok b) :
    b.openTime = a.openTime + step ∧ b.open_ = a.close := by
  obtain ⟨-, htime, -, hclose, -⟩ := candle_okIn ha
  obtain ⟨-, htime', hopen, -⟩ := candle_okIn hb
  constructor
  · rw [htime, htime']
    push_cast
    ring
  · -- the loop carries the unrounded close, and both ends round it
    exact Except.ok.inj (hopen.symm.trans hclose)

/-- Whatever context computes the prices, the bars of a fetch have their shape. -/
theorem fetchSnapshot_shape (hparse : parseTimeframe timeframe = .ok step)
    (hclock : InDatetimeRange clock) (hlimit : 0 < limit) {s : MarketSnapshot}
    (h : x.fetchSnapshot clock symbol timeframe limit A = .ok s) : s.Shape clock step limit := by
  obtain ⟨-, firstOpen, d, hwindow, hbars⟩ := fetchSnapshot_eq_ok h
  obtain ⟨rfl, hfirst, -⟩ := (window_eq_ok hparse hclock hlimit).mp hwindow
  obtain ⟨hstep, -, hdvd, -⟩ := window_ok hwindow
  -- the last turn opens one bar before the one that is forming
  have hlast : s.asOf = d * (clock / d) - d := by
    have hturn : ((limit - 1 : ℕ) : ℤ) = limit - 1 := by omega
    rw [MarketSnapshot.asOf, (candle_okIn (last_bar hlimit hbars)).2.1, hfirst, hturn]
    ring
  have hfloor : d * (clock / d) ≤ clock := Int.mul_ediv_self_le hstep.ne'
  have hforming : clock < d * (clock / d) + d := Int.lt_mul_ediv_self_add hstep
  refine ⟨?_, fun c hc => ?_, ?_, ?_, ?_⟩
  · rw [← hbars.length_eq, List.length_range']
  · obtain ⟨k, -, hbar⟩ := hbars.exists_mem_left hc
    rw [(candle_okIn hbar).2.1]
    exact Int.dvd_add hdvd (Int.dvd_mul_right _ _)
  · refine hbars.isChain (List.isChain_range' 0 limit 1) ?_
    rintro k _ a b rfl ha hb
    exact bar_follows ha hb
  · rw [hlast]
    linarith
  · rw [hlast]
    linarith

end SimulatedExchange

/-! ## What the cycle and the strategy count on -/

namespace MarketSnapshot.Shape

variable {s : MarketSnapshot} {clock : Instant} {step : Duration} {limit : ℕ}

/-- A snapshot is not stale to a clock at most one bar behind the one it was fetched at. -/
theorem not_stale (h : s.Shape clock step limit) {timeframe : String}
    (hparse : parseTimeframe timeframe = .ok step) (hclock : InDatetimeRange clock)
    (hlimit : 0 < limit) (hstart : SimulatedExchange.StartsInRange clock step limit)
    {now : Instant} (hnow : now ≤ clock) :
    isStale s.asOf timeframe now maxSnapshotAgeFactor = .ok false := by
  have hstep := parseTimeframe_pos hparse
  have hfloor : step * (clock / step) ≤ clock := Int.mul_ediv_self_le hstep.ne'
  have hone : step ≤ step * limit := le_mul_of_one_le_right hstep.le (by exact_mod_cast hlimit)
  unfold SimulatedExchange.StartsInRange at hstart
  have hage : timedelta (step * maxSnapshotAgeFactor) = .ok (step * maxSnapshotAgeFactor) := by
    unfold maxSnapshotAgeFactor
    exact timedelta_of_le (by linarith [minDatetime_neg, maxDatetime_pos])
      (by linarith [hclock.2, minDatetime_neg, maxDatetime_pos])
  have hfresh : ¬now - s.asOf > step * maxSnapshotAgeFactor := by
    unfold maxSnapshotAgeFactor
    linarith [h.newest]
  simp [isStale, hparse, hage, hfresh, bind, Except.bind, pure, Except.pure]

/-- Accepted settings build a strategy whose window is smaller than what they fetch. -/
theorem exists_strategy (settings : Settings) (h : s.Shape clock step settings.candleLimit) :
    ∃ strategy, SmaCrossoverStrategy.create settings.smaFast settings.smaSlow (1 / 100) =
      .ok strategy ∧ strategy.slowWindow + 1 ≤ s.candles.length := by
  let strategy : SmaCrossoverStrategy := ⟨settings.smaFast, settings.smaSlow, 1 / 100,
    settings.two_le_fast, settings.fast_lt_slow, by norm_num⟩
  have htwo := settings.two_le_fast
  have hslow := settings.fast_lt_slow
  refine ⟨strategy, by simp [SmaCrossoverStrategy.create, htwo, hslow, strategy], ?_⟩
  rw [h.length]
  exact settings.slow_lt_limit

end MarketSnapshot.Shape

/-! ## The strategy in the default context -/

/-- The sum of positive closes stays positive as it is rounded. -/
theorem sumIn_default_pos {values : List ℚ} (hne : values ≠ []) (hpos : ∀ v ∈ values, 0 < v) :
    0 < sumIn .default values := by
  -- on the closes still to be added, from any total that is not negative
  have hfold : ∀ (terms : List ℚ) (total : ℚ), 0 ≤ total → (∀ v ∈ terms, 0 < v) →
      0 ≤ terms.foldl DecimalContext.default.add total ∧
        (terms ≠ [] → 0 < terms.foldl DecimalContext.default.add total) := by
    intro terms
    induction terms with
    | nil => exact fun total htotal _ => ⟨htotal, fun hnil => absurd rfl hnil⟩
    | cons v terms ih =>
      intro total htotal hterms
      have hv := hterms v List.mem_cons_self
      have hnext : 0 < DecimalContext.default.add total v := rounded_pos (by linarith)
      have hrest : ∀ w ∈ terms, 0 < w := fun w hw => hterms w (List.mem_cons_of_mem v hw)
      obtain ⟨hnonneg, hlater⟩ := ih _ hnext.le hrest
      refine ⟨hnonneg, fun _ => ?_⟩
      cases terms with
      | nil => exact hnext
      | cons w terms => exact hlater (List.cons_ne_nil w terms)
  exact (hfold values 0 le_rfl hpos).2 hne

/-- The average of positive closes is a positive number. -/
theorem exists_meanIn_default {values : List ℚ} (hne : values ≠ [])
    (hpos : ∀ v ∈ values, 0 < v) :
    ∃ average, meanIn .default values = .ok average ∧ 0 < average := by
  have hlength : (0 : ℚ) < values.length := by exact_mod_cast List.length_pos_iff.mpr hne
  exact ⟨_, if_pos hlength.ne', rounded_pos (div_pos (sumIn_default_pos hne hpos) hlength)⟩

namespace SmaCrossoverStrategy

variable {s : SmaCrossoverStrategy}

/-- The strength of a spread over a positive average is one that a signal can have. -/
theorem exists_strengthIn_default (fast : ℚ) {slow : ℚ} (hslow : 0 < slow) :
    ∃ strength, s.strengthIn .default fast slow = .ok strength ∧ 0 ≤ strength ∧ strength ≤ 1 := by
  have hratio := s.ratio_pos
  have hspread := rounded_nonneg (abs_nonneg (rounded (fast - slow)))
  have hquotient := rounded_nonneg (div_nonneg hspread hslow.le)
  have hfirst : DecimalContext.default.div (rounded |rounded (fast - slow)|) slow =
      .ok (rounded (rounded |rounded (fast - slow)| / slow)) := if_pos hslow.ne'
  have hsecond : DecimalContext.default.div (rounded (rounded |rounded (fast - slow)| / slow))
      s.strengthScaleRatio = .ok (rounded (rounded (rounded |rounded (fast - slow)| / slow) /
        s.strengthScaleRatio)) := if_pos hratio.ne'
  refine ⟨_, Except.bind_eq_ok.mpr ⟨_, hfirst, Except.bind_eq_ok.mpr ⟨_, hsecond, rfl⟩⟩, ?_,
    min_le_left _ _⟩
  exact le_min zero_le_one (rounded_nonneg (div_nonneg hquotient hratio.le))

/-- With enough history the strategy answers with one of its three reasons, whatever is lost in
    the rounding. -/
theorem exists_evaluateIn_default {snapshot : MarketSnapshot}
    (hlength : s.slowWindow + 1 ≤ snapshot.candles.length) :
    ∃ signal, s.evaluateIn .default snapshot = .ok signal ∧
      signal.reason = reasonFor signal.action := by
  have htwo := s.two_le_fast
  have hfast := s.fast_lt_slow
  have hcloses : snapshot.candles.map Candle.close = snapshot.closes := rfl
  have hclosesLength : s.slowWindow + 1 ≤ snapshot.closes.length := by simpa using hlength
  have henough : ¬snapshot.closes.length < s.slowWindow + 1 := not_lt.mpr hclosesLength
  -- each of the four averages is one of closes
  have haverage : ∀ (window : ℕ) (closes : List ℚ), 0 < window → window ≤ closes.length →
      (∀ v ∈ closes, 0 < v) →
      ∃ average, meanIn .default (lastValues window closes) = .ok average ∧ 0 < average := by
    intro window closes hwindow hle hpos
    refine exists_meanIn_default (List.ne_nil_of_length_pos ?_) fun v hv => ?_
    · rw [length_lastValues, min_eq_left hle]
      exact hwindow
    · exact hpos v ((lastValues_suffix window closes).mem hv)
  have hpos := snapshot.closes_pos
  have hbefore : ∀ v ∈ snapshot.closes.dropLast, 0 < v := fun v hv =>
    hpos v (List.mem_of_mem_dropLast hv)
  have hdrop : s.slowWindow ≤ snapshot.closes.dropLast.length := by
    rw [List.length_dropLast]
    omega
  obtain ⟨currentFast, hcurrentFast, -⟩ :=
    haverage s.fastWindow snapshot.closes (by omega) (by omega) hpos
  obtain ⟨currentSlow, hcurrentSlow, hslow⟩ :=
    haverage s.slowWindow snapshot.closes (by omega) (by omega) hpos
  obtain ⟨previousFast, hpreviousFast, -⟩ :=
    haverage s.fastWindow snapshot.closes.dropLast (by omega) (by omega) hbefore
  obtain ⟨previousSlow, hpreviousSlow, -⟩ :=
    haverage s.slowWindow snapshot.closes.dropLast (by omega) hdrop hbefore
  obtain ⟨strength, hstrength, hnonneg, hle⟩ := s.exists_strengthIn_default currentFast hslow
  simp only [evaluateIn, hcloses, henough, if_false, hcurrentFast, hcurrentSlow, hpreviousFast,
    hpreviousSlow, hstrength, bind, Except.bind, hold, Signal.validate_of_mem hnonneg hle,
    Signal.validate_of_mem le_rfl zero_le_one]
  split
  · exact ⟨_, rfl, rfl⟩
  · refine ⟨_, rfl, ?_⟩
    split <;> rfl

end SmaCrossoverStrategy

/-! ## The snapshot of every clock reading, timeframe and limit -/

namespace SimulatedExchange

/-- A fetch whose window starts in range and whose prices fit returns the newest closed bars.
    They are not stale to a cycle that read its clock before the fetch, and they are history
    enough for the strategy of any settings that ask for as many. -/
theorem exists_fetchSnapshot_shape (x : SimulatedExchange) (clock : Instant)
    (symbol timeframe : String) (step : Duration) (limit : ℕ)
    (hparse : parseTimeframe timeframe = .ok step) (hclock : InDatetimeRange clock)
    (hlimit : 0 < limit) (hstart : StartsInRange clock step limit)
    (hprices : x.PricesFit (x.random (x.seedString symbol timeframe)) limit) :
    ∃ s, x.fetchSnapshot clock symbol timeframe limit .default = .ok s ∧
      s.Shape clock step limit ∧
      (∀ now ≤ clock, isStale s.asOf timeframe now maxSnapshotAgeFactor = .ok false) ∧
      ∀ settings : Settings, settings.candleLimit = limit → ∃ strategy signal,
        SmaCrossoverStrategy.create settings.smaFast settings.smaSlow (1 / 100) = .ok strategy ∧
        strategy.evaluateIn .default s = .ok signal ∧
        signal.reason = SmaCrossoverStrategy.reasonFor signal.action := by
  obtain ⟨s, hs⟩ := (exists_fetchSnapshot_iff hparse hclock hlimit).mpr ⟨hstart, hprices⟩
  -- everything else follows from the shape of what was fetched
  have hshape := fetchSnapshot_shape hparse hclock hlimit hs
  refine ⟨s, hs, hshape, fun now hnow => ?_, ?_⟩
  · exact hshape.not_stale hparse hclock hlimit hstart hnow
  · rintro settings rfl
    obtain ⟨strategy, hcreate, hlength⟩ := hshape.exists_strategy settings
    obtain ⟨signal, hsignal, hreason⟩ := SmaCrossoverStrategy.exists_evaluateIn_default hlength
    exact ⟨strategy, signal, hcreate, hsignal, hreason⟩

/-- Two hundred bars of fifteen minutes, fetched at noon. -/
theorem exists_fetchSnapshot_shape_noon :
    ∃ s, (flatMarket 100 10 5).fetchSnapshot noon "BTC/USDT" "15m" 200 .default = .ok s ∧
      s.Shape noon 900000000 200 ∧
      (∀ now ≤ noon, isStale s.asOf "15m" now maxSnapshotAgeFactor = .ok false) ∧
      ∀ settings : Settings, settings.candleLimit = 200 → ∃ strategy signal,
        SmaCrossoverStrategy.create settings.smaFast settings.smaSlow (1 / 100) = .ok strategy ∧
        strategy.evaluateIn .default s = .ok signal ∧
        signal.reason = SmaCrossoverStrategy.reasonFor signal.action :=
  exists_fetchSnapshot_shape (flatMarket 100 10 5) noon "BTC/USDT" "15m" 900000000 200
    (by decide) (by unfold InDatetimeRange; decide) (by decide) (by unfold StartsInRange; decide)
    fun turn _ => barFits_of_still stillDraws_still (by unfold RoundsToCents; decide +kernel) turn

/-- Two hundred bars of a thousand weeks reach back further than year 1. -/
theorem fetchSnapshot_before_year_one :
    parseTimeframe "1000w" = .ok 604800000000000 ∧ InDatetimeRange noon ∧
      (flatMarket 100 10 5).PricesFit
        ((flatMarket 100 10 5).random ((flatMarket 100 10 5).seedString "BTC/USDT" "1000w")) 200 ∧
      (flatMarket 100 10 5).fetchSnapshot noon "BTC/USDT" "1000w" 200 .default =
        .error (.overflowError "date value out of range") := by
  refine ⟨by decide, by unfold InDatetimeRange; decide, ?_, by decide +kernel⟩
  exact fun turn _ =>
    barFits_of_still stillDraws_still (by unfold RoundsToCents; decide +kernel) turn

end SimulatedExchange

end TradingBot
