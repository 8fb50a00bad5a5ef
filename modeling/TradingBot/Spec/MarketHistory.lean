import TradingBot.Spec.SimulatedPrices

/-!
# The history of the simulated market

Every fetch generates its candles anew, from the start price at the first bar of its
window, while the timestamps follow the clock. So two fetches agree on the bars they
share, whatever the generator draws, exactly when their windows start at the same bar.
-/

namespace TradingBot

namespace SimulatedExchange

variable {x : SimulatedExchange} {symbol timeframe : String} {clock₁ clock₂ : Instant}
  {limit₁ limit₂ : ℕ}

/-- A bar that two fetches return carries the same values in both. -/
def OneHistory (x : SimulatedExchange) (symbol timeframe : String) (clock₁ : Instant)
    (limit₁ : ℕ) (clock₂ : Instant) (limit₂ : ℕ) : Prop :=
  ∀ s₁ s₂, x.fetchSnapshot clock₁ symbol timeframe limit₁ .default = .ok s₁ →
    x.fetchSnapshot clock₂ symbol timeframe limit₂ .default = .ok s₂ →
    ∀ c₁ ∈ s₁.candles, ∀ c₂ ∈ s₂.candles, c₁.openTime = c₂.openTime → c₁ = c₂

/-- Windows that share a bar start at the same bar, unless the start price rounds to zero or
    needs more digits than the context has, and no fetch returns. -/
def SameStart (x : SimulatedExchange) (timeframe : String) (clock₁ : Instant) (limit₁ : ℕ)
    (clock₂ : Instant) (limit₂ : ℕ) : Prop :=
  ∀ first₁ first₂ step, window clock₁ timeframe limit₁ = .ok (first₁, step) →
    window clock₂ timeframe limit₂ = .ok (first₂, step) → RoundsToCents x.startPrice →
    ∀ i < limit₁, ∀ j < limit₂, first₁ + step * i = first₂ + step * j → first₁ = first₂

/-! ## From one start to one history -/

/-- A bar that was returned has its place in the walk, and the walk starts at a price. -/
private theorem mem_candles {clock : Instant} {limit : ℕ} {s : MarketSnapshot} {c : Candle}
    (h : x.fetchSnapshot clock symbol timeframe limit .default = .ok s) (hc : c ∈ s.candles) :
    ∃ first step k, window clock timeframe limit = .ok (first, step) ∧ k < limit ∧
      x.bar symbol first step (x.random (x.seedString symbol timeframe)) k .default = .ok c ∧
      RoundsToCents x.startPrice := by
  obtain ⟨-, first, step, hwindow, hbars⟩ := fetchSnapshot_eq_ok h
  obtain ⟨k, hk, hbar⟩ := hbars.exists_mem_left hc
  have hk : k < limit := by simpa using hk
  have hzero : 0 ∈ List.range' 0 limit := by simp; omega
  obtain ⟨d, -, hfirst⟩ := hbars.exists_mem_right hzero
  -- the first bar opens at the start price
  have hopen := (candle_okIn hfirst).2.2.1
  have hpos : 0 < roundPrice x.startPrice := (roundPriceIn_default.mp hopen).1 ▸ d.open_pos
  exact ⟨first, step, k, hwindow, hk, hbar, roundPrice_pos_iff.mp hpos, lt_of_roundPriceIn hopen⟩

/-- Each turn of the window of a fetch is one of its bars. -/
private theorem exists_candle {clock : Instant} {limit : ℕ} {s : MarketSnapshot}
    (h : x.fetchSnapshot clock symbol timeframe limit .default = .ok s) {first : Instant}
    {step : Duration} (hwindow : window clock timeframe limit = .ok (first, step)) {k : ℕ}
    (hk : k < limit) : ∃ c ∈ s.candles,
      x.bar symbol first step (x.random (x.seedString symbol timeframe)) k .default = .ok c := by
  obtain ⟨-, first', step', hwindow', hbars⟩ := fetchSnapshot_eq_ok h
  cases hwindow.symm.trans hwindow'
  exact hbars.exists_mem_right (by simpa using hk)

/-- Windows with the same start have one history: the walk draws the same from there. -/
theorem oneHistory_of_sameStart (h : x.SameStart timeframe clock₁ limit₁ clock₂ limit₂) :
    x.OneHistory symbol timeframe clock₁ limit₁ clock₂ limit₂ := by
  intro s₁ s₂ hs₁ hs₂ c₁ hc₁ c₂ hc₂ htime
  obtain ⟨first₁, step, i, hwindow₁, hi, hbar₁, hstart⟩ := mem_candles hs₁ hc₁
  obtain ⟨first₂, step', j, hwindow₂, hj, hbar₂, -⟩ := mem_candles hs₂ hc₂
  obtain ⟨hpos, hparse, -⟩ := window_ok hwindow₁
  obtain ⟨-, hparse', -⟩ := window_ok hwindow₂
  cases hparse.symm.trans hparse'
  rw [(candle_okIn hbar₁).2.1, (candle_okIn hbar₂).2.1] at htime
  obtain rfl := h first₁ first₂ step hwindow₁ hwindow₂ hstart i hi j hj htime
  -- the same start and the same time are the same turn of the same walk
  have hturn : (i : ℤ) = j := mul_left_cancel₀ hpos.ne' (add_left_cancel htime)
  obtain rfl : i = j := by exact_mod_cast hturn
  exact Except.ok.inj (hbar₁.symm.trans hbar₂)

/-! ## A generator that tells the turns apart -/

/-- Draws that leave the price alone and give the first turn a volume of its own. -/
def markFirst (turn : ℕ) : CandleDraws where
  shock := 0
  highDrift := 0
  lowDrift := 0
  volume := if turn = 0 then 1 else 2
  volume_bounds := by split <;> decide

/-- Every bar of the marked walk is accepted. -/
private theorem exists_markFirst_bar (x : SimulatedExchange)
    (hstart : RoundsToCents x.startPrice) (first : Instant) (step : Duration) (turn : ℕ) :
    ∃ c, x.bar symbol first step markFirst turn .default = .ok c :=
  exists_bar_iff.mpr (barFits_of_still (fun _ => ⟨rfl, rfl, rfl⟩) hstart turn)

/-- When the earlier of two windows reaches the start of the later one, the generator above
    gives that bar two volumes. -/
private theorem not_oneHistory {first step : ℤ} {k : ℕ} (hk : 0 < k) (hlt : k < limit₁)
    (hlimit : 0 < limit₂) (hwindow₁ : window clock₁ timeframe limit₁ = .ok (first, step))
    (hwindow₂ : window clock₂ timeframe limit₂ = .ok (first + step * k, step))
    (hstart : RoundsToCents x.startPrice) :
    ¬{ x with random := fun _ => markFirst }.OneHistory symbol timeframe clock₁ limit₁ clock₂
      limit₂ := by
  intro hone
  have hbars : ∀ (first : Instant) (k : ℕ), ∃ c, SimulatedExchange.bar
      { x with random := fun _ => markFirst } symbol first step markFirst k .default = .ok c :=
    fun first k =>
      exists_markFirst_bar { x with random := fun _ => markFirst } hstart first step k
  obtain ⟨s₁, hs₁⟩ := exists_fetchSnapshot hwindow₁ (hk.trans hlt) fun i _ => hbars first i
  obtain ⟨s₂, hs₂⟩ := exists_fetchSnapshot hwindow₂ hlimit fun i _ => hbars _ i
  obtain ⟨c₁, hc₁, hbar₁⟩ := exists_candle hs₁ hwindow₁ hlt
  obtain ⟨c₂, hc₂, hbar₂⟩ := exists_candle hs₂ hwindow₂ hlimit
  have htime : c₁.openTime = c₂.openTime := by
    rw [(candle_okIn hbar₁).2.1, (candle_okIn hbar₂).2.1]
    simp
  -- the first turn of the later window is a later turn of the earlier one
  have hvolume := congrArg Candle.volume (hone s₁ s₂ hs₁ hs₂ c₁ hc₁ c₂ hc₂ htime)
  rw [(candle_okIn hbar₁).2.2.2.2, (candle_okIn hbar₂).2.2.2.2] at hvolume
  simp [markFirst, hk.ne'] at hvolume

/-! ## Exactly when the market has one history -/

/-- The two fetches may be exchanged. -/
theorem OneHistory.symm (h : x.OneHistory symbol timeframe clock₁ limit₁ clock₂ limit₂) :
    x.OneHistory symbol timeframe clock₂ limit₂ clock₁ limit₁ :=
  fun s₂ s₁ hs₂ hs₁ c₂ hc₂ c₁ hc₁ htime => (h s₁ s₂ hs₁ hs₂ c₁ hc₁ c₂ hc₂ htime.symm).symm

/-- Two windows that share a bar and of which the first starts earlier do not have one
    history for every generator. -/
private theorem not_forall_oneHistory {first₁ first₂ step : ℤ} {i j : ℕ}
    (hwindow₁ : window clock₁ timeframe limit₁ = .ok (first₁, step))
    (hwindow₂ : window clock₂ timeframe limit₂ = .ok (first₂, step))
    (hstart : RoundsToCents x.startPrice) (hi : i < limit₁) (hj : j < limit₂)
    (htime : first₁ + step * i = first₂ + step * j) (hlt : first₁ < first₂) :
    ¬∀ random, { x with random := random }.OneHistory symbol timeframe clock₁ limit₁ clock₂
      limit₂ := by
  intro hone
  obtain ⟨hpos, -⟩ := window_ok hwindow₁
  have hji : (j : ℤ) < i := by
    by_contra hle
    have := mul_le_mul_of_nonneg_left (not_lt.mp hle) hpos.le
    linarith
  have hcast : ((i - j : ℕ) : ℤ) = i - j := by omega
  -- the shared bar is earlier in the window that starts later, so one of its bars is the first
  -- there
  have hfirst : first₂ = first₁ + step * ((i - j : ℕ) : ℤ) := by
    rw [hcast, mul_sub]
    linarith
  exact not_oneHistory (by omega) (by omega : i - j < limit₁) (by omega) hwindow₁
    (hfirst ▸ hwindow₂) hstart (hone fun _ => markFirst)

/-- Two fetches agree on the bars they share, whatever is drawn, exactly when their windows
    start at the same bar if they share one. -/
theorem one_history_iff_same_start (x : SimulatedExchange) (symbol timeframe : String)
    (clock₁ : Instant) (limit₁ : ℕ) (clock₂ : Instant) (limit₂ : ℕ) :
    (∀ random, { x with random := random }.OneHistory symbol timeframe clock₁ limit₁ clock₂
      limit₂) ↔ x.SameStart timeframe clock₁ limit₁ clock₂ limit₂ := by
  constructor
  · intro hone first₁ first₂ step hwindow₁ hwindow₂ hstart i hi j hj htime
    rcases lt_trichotomy first₁ first₂ with hlt | heq | hgt
    · -- the earlier window reaches the first bar of the later one
      exact absurd hone
        (not_forall_oneHistory hwindow₁ hwindow₂ hstart hi hj htime hlt)
    · exact heq
    · exact absurd (fun random => (hone random).symm)
        (not_forall_oneHistory hwindow₂ hwindow₁ hstart hj hi htime.symm hgt)
  · intro hsame random
    exact oneHistory_of_sameStart hsame

/-- A market whose first step goes up by one percent and that stands still from then on. -/
def firstStepUp : SimulatedExchange where
  seed := 42
  startPrice := 100
  volatilityBps := 100
  feeBps := 10
  slippageBps := 5
  random _ turn := { stillDraws with shock := if turn = 0 then 1 else 0 }

/-- Fetched at noon, the bar of 11:45 opens at 101; fetched fifteen minutes later it is the
    first of its window and opens at 100. -/
theorem firstStepUp_two_histories :
    ¬firstStepUp.OneHistory "BTC/USDT" "15m" noon 2 (noon + 900000000) 2 := by
  intro hone
  have hdiffer : (do
      let s₁ ← firstStepUp.fetchSnapshot noon "BTC/USDT" "15m" 2 .default
      let s₂ ← firstStepUp.fetchSnapshot (noon + 900000000) "BTC/USDT" "15m" 2 .default
      return s₁.candles.any fun c₁ => s₂.candles.any fun c₂ =>
        c₁.openTime = c₂.openTime ∧ c₁.open_ = 101 ∧ c₂.open_ = 100 : Except Error Bool) =
      .ok true := by decide +kernel
  obtain ⟨s₁, hs₁, hdiffer⟩ := Except.bind_eq_ok.mp hdiffer
  obtain ⟨s₂, hs₂, hdiffer⟩ := Except.bind_eq_ok.mp hdiffer
  have hany := Except.ok.inj hdiffer
  simp only [List.any_eq_true, decide_eq_true_eq] at hany
  obtain ⟨c₁, hc₁, c₂, hc₂, htime, hopen₁, hopen₂⟩ := hany
  have hsame := congrArg Candle.open_ (hone s₁ s₂ hs₁ hs₂ c₁ hc₁ c₂ hc₂ htime)
  rw [hopen₁, hopen₂] at hsame
  norm_num at hsame

end SimulatedExchange

end TradingBot
