import TradingBot.Spec.CrossoverSignal
import TradingBot.Spec.DecimalRounding
import TradingBot.Strategy.DecimalCrossover
import Mathlib.Algebra.Group.Submonoid.BigOperators
import Mathlib.Algebra.Order.Group.MinMax

/-!
# The signal under rounded arithmetic

The strategy averages with 28 significant digits and compares what was rounded. The sums of the
closes are exact as long as the closes are on a grid; two averages of different windows that
differ do so by a unit of the grid over both windows, which the rounding of the quotients does
not bridge, and equal averages are rounded alike. So the action is that of exact arithmetic.
Only the strength, which divides once more, is off by the error of a few roundings.
-/

namespace TradingBot

open FixedPoint

/-! ## Averages -/

/-- The mean of values below a bound is below it. -/
theorem mean_lt {values : List ℚ} (hne : values ≠ []) {bound : ℚ}
    (hlt : ∀ v ∈ values, v < bound) : mean values < bound := by
  have hreflected : 0 < mean (values.map (bound - ·)) := by
    refine mean_pos (by simpa using hne) fun w hw => ?_
    obtain ⟨v, hv, rfl⟩ := List.mem_map.mp hw
    exact sub_pos.mpr (hlt v hv)
  rw [mean_map_sub bound hne] at hreflected
  exact sub_pos.mp hreflected

/-- The rounded average of positive closes on a grid is the average, rounded once. -/
theorem meanIn_default {values : List ℚ} {n : ℕ} (hne : values ≠ [])
    (hgrid : ∀ v ∈ values, v ∈ Grid ℚ n) (hpos : ∀ v ∈ values, 0 < v)
    (hunits : values.sum * 10 ^ n < 10 ^ DecimalArithmetic.precision) :
    meanIn .default values = .ok (rounded (mean values)) := by
  have hsum : sumIn .default values = values.sum := by
    have hfold : sumIn .default values = 0 + values.sum :=
      foldl_roundSig_add (zero_mem (Grid ℚ n)) hgrid le_rfl (fun v hv => (hpos v hv).le)
        (by rwa [zero_add])
    rw [hfold, zero_add]
  have hlength : (values.length : ℚ) ≠ 0 :=
    Nat.cast_ne_zero.mpr fun hnil => hne (List.length_eq_zero_iff.mp hnil)
  rw [meanIn, hsum]
  exact if_pos hlength

/-- Two signals that differ in their strength alone, and there by no more than an error. -/
structure Signal.Near (error : ℚ) (a b : Signal) : Prop where
  symbol : a.symbol = b.symbol
  action : a.action = b.action
  asOf : a.asOf = b.asOf
  strategy : a.strategy = b.strategy
  reason : a.reason = b.reason
  strength : |a.strength - b.strength| ≤ error

namespace SmaCrossoverStrategy

/-- The closes have `n` digits after the point and `m` before it, and the windows leave room
    for the average of such closes in the context. -/
structure Representable (s : SmaCrossoverStrategy) (n m : ℕ) (closes : List ℚ) : Prop where
  grid : ∀ close ∈ closes, close ∈ Grid ℚ n
  lt : ∀ close ∈ closes, close < 10 ^ m
  room : 10 ^ (n + m + 1) * (s.fastWindow * s.slowWindow) ≤ 10 ^ DecimalArithmetic.precision

variable {s : SmaCrossoverStrategy} {n m : ℕ} {closes : List ℚ}

/-- The room for the averages, with the windows the other way round. -/
theorem Representable.room_comm (h : s.Representable n m closes) :
    10 ^ (n + m + 1) * (s.slowWindow * s.fastWindow) ≤ 10 ^ DecimalArithmetic.precision := by
  rw [mul_comm s.slowWindow]
  exact h.room

/-- What the average of a window is. -/
structure Averages (n m : ℕ) (window : ℕ) (values : List ℚ) : Prop where
  window_pos : 0 < window
  mean_eq : mean values = values.sum / window
  sum_mem : values.sum ∈ Grid ℚ n
  pos : 0 < mean values
  lt : mean values < 10 ^ m
  meanIn_eq : meanIn .default values = .ok (rounded (mean values))

/-- Every window over closes that can be represented has a positive average on a grid. -/
theorem Representable.averages (h : s.Representable n m closes)
    (hpos : ∀ close ∈ closes, 0 < close) (window : ℕ) (hwindow : 0 < window)
    (hle : window ≤ s.slowWindow) {recent : List ℚ}
    (hrecent : ∀ close ∈ recent, close ∈ closes) (hlength : window ≤ recent.length) :
    Averages n m window (lastValues window recent) := by
  have hlast : (lastValues window recent).length = window := by
    rw [length_lastValues, min_eq_left hlength]
  have hmem : ∀ v ∈ lastValues window recent, v ∈ closes := fun v hv =>
    hrecent v ((lastValues_suffix _ _).mem hv)
  have hne : lastValues window recent ≠ [] :=
    List.ne_nil_of_length_pos (hlast.symm ▸ hwindow)
  have hmean : mean (lastValues window recent) = (lastValues window recent).sum / window := by
    rw [mean, hlast]
  have hlt : mean (lastValues window recent) < 10 ^ m :=
    mean_lt hne fun v hv => h.lt v (hmem v hv)
  have hcast : (0 : ℚ) < window := Nat.cast_pos.mpr hwindow
  -- fewer units than closes below the bound would have
  have hunits : (lastValues window recent).sum * 10 ^ n <
      10 ^ DecimalArithmetic.precision := by
    have hwindows : window * 10 ^ (m + n) ≤ 10 ^ DecimalArithmetic.precision := by
      have hfast : window ≤ s.fastWindow * s.slowWindow :=
        hle.trans (Nat.le_mul_of_pos_left _ (by have := s.two_le_fast; omega))
      calc window * 10 ^ (m + n) ≤ s.fastWindow * s.slowWindow * 10 ^ (n + m + 1) :=
            Nat.mul_le_mul hfast (Nat.pow_le_pow_right (by decide) (by omega))
        _ = 10 ^ (n + m + 1) * (s.fastWindow * s.slowWindow) := mul_comm _ _
        _ ≤ 10 ^ DecimalArithmetic.precision := h.room
    calc (lastValues window recent).sum * 10 ^ n
        = mean (lastValues window recent) * window * 10 ^ n := by
          rw [hmean, div_mul_cancel₀ _ hcast.ne']
      _ < 10 ^ m * window * 10 ^ n := by gcongr
      _ = ((window * 10 ^ (m + n) : ℕ) : ℚ) := by
          push_cast
          ring
      _ ≤ 10 ^ DecimalArithmetic.precision := by exact_mod_cast hwindows
  exact ⟨hwindow, hmean, list_sum_mem fun v hv => h.grid v (hmem v hv),
    mean_pos hne fun v hv => hpos v (hmem v hv), hlt,
    meanIn_default hne (fun v hv => h.grid v (hmem v hv)) (fun v hv => hpos v (hmem v hv)) hunits⟩

/-- The averages of both windows at the end of some of the closes. -/
theorem Representable.both (h : s.Representable n m closes) (hpos : ∀ close ∈ closes, 0 < close)
    {recent : List ℚ} (hrecent : ∀ close ∈ recent, close ∈ closes)
    (hlength : s.slowWindow ≤ recent.length) :
    Averages n m s.fastWindow (lastValues s.fastWindow recent) ∧
      Averages n m s.slowWindow (lastValues s.slowWindow recent) := by
  have htwo := s.two_le_fast
  have hfast := s.fast_lt_slow
  exact ⟨h.averages hpos s.fastWindow (by omega) (by omega) hrecent (by omega),
    h.averages hpos s.slowWindow (by omega) le_rfl hrecent hlength⟩

/-- The average is below the bound of the closes. -/
theorem Averages.abs_lt {window : ℕ} {values : List ℚ} (h : Averages n m window values) :
    |values.sum / window| < 10 ^ m := by
  rw [← h.mean_eq, abs_of_pos h.pos]
  exact h.lt

/-- Rounding keeps the order of the averages of two windows. -/
theorem Averages.lt_iff {c d : ℕ} {xs ys : List ℚ} (hx : Averages n m c xs)
    (hy : Averages n m d ys)
    (hroom : 10 ^ (n + m + 1) * (c * d) ≤ 10 ^ DecimalArithmetic.precision) :
    rounded (mean xs) < rounded (mean ys) ↔ mean xs < mean ys := by
  rw [rounded, rounded, hx.mean_eq, hy.mean_eq]
  exact roundSig_div_lt_iff hx.sum_mem hy.sum_mem hx.window_pos hy.window_pos hx.abs_lt hy.abs_lt
    hroom

/-! ## The strength -/

/-- The strength before it is capped, from two averages that were rounded. -/
theorem rounded_scaled {b : ℚ} (hb : |b| ≤ roundoff) (spread slow ratio : ℚ) :
    Rounded roundoff 5
      (rounded (rounded (rounded |rounded spread| / (slow * (1 + b))) / ratio))
      (|spread| / slow / ratio) := by
  have hu := roundoff_pos.le
  have hroom {k : ℕ} (hk : k ≤ 4) : ((k : ℚ) + 1) * roundoff < 1 := by
    have hcast : (k : ℚ) ≤ 4 := by exact_mod_cast hk
    norm_num [roundoff]
    linarith
  have htrans {k : ℕ} {x y : ℚ} (hk : k ≤ 4) (h : Rounded roundoff k x y) :
      Rounded roundoff (k + 1) (rounded x) y := rounded_succ (hroom hk) h
  have habs : Rounded roundoff 1 |rounded spread| |spread| := by
    obtain ⟨c, hc, hspread⟩ := rounded_factor spread
    rw [hspread, abs_mul, abs_of_pos (factor_pos hc)]
    exact .one hu (by norm_num [roundoff]) hc _
  have hquotient := (htrans (by decide) habs).div (w := slow) hu (hroom (by decide)) hb
  exact htrans (by decide) ((htrans (by decide) hquotient).div_exact ratio)

/-- Rounding both averages and every result on the way changes the strength before it is capped
    by a few roundings of the averages. -/
theorem abs_rounded_scaled_sub_le {fast slow ratio : ℚ} (hfast : 0 < fast) (hslow : 0 < slow)
    (hratio : 0 < ratio) :
    |rounded (rounded (rounded |rounded (rounded fast - rounded slow)| / rounded slow) / ratio) -
        |fast - slow| / slow / ratio| ≤ 8 * roundoff * ((fast + slow) / slow / ratio) := by
  obtain ⟨a, ha, hfast'⟩ := rounded_factor fast
  obtain ⟨b, hb, hslow'⟩ := rounded_factor slow
  have hu := roundoff_pos
  rw [hfast', hslow']
  generalize hspread : fast * (1 + a) - slow * (1 + b) = spread
  have hscaled := (rounded_scaled hb spread slow ratio).abs_sub_le
  have hdiv : ∀ x : ℚ, 0 ≤ x → 0 ≤ x / slow / ratio := fun x hx => by positivity
  -- rounding the averages moves the spread
  have hmoved : |spread - (fast - slow)| ≤ roundoff * (fast + slow) := by
    have hdiff : spread - (fast - slow) = fast * a - slow * b := by
      rw [← hspread]
      ring
    calc |spread - (fast - slow)| = |fast * a - slow * b| := by rw [hdiff]
      _ ≤ |fast * a| + |slow * b| := abs_sub _ _
      _ = fast * |a| + slow * |b| := by rw [abs_mul, abs_mul, abs_of_pos hfast, abs_of_pos hslow]
      _ ≤ fast * roundoff + slow * roundoff := by gcongr
      _ = roundoff * (fast + slow) := by ring
  have hspread_le : |spread| ≤ (1 + roundoff) * (fast + slow) := by
    have hsub : |fast - slow| ≤ fast + slow := by
      rw [abs_le]
      constructor <;> linarith
    linarith [abs_sub_abs_le_abs_sub spread (fast - slow)]
  have herror : errorAfter roundoff 5 ≤ 6 * roundoff := by norm_num [errorAfter, roundoff]
  have hrest : |(|spread| / slow / ratio) - |fast - slow| / slow / ratio| ≤
      roundoff * ((fast + slow) / slow / ratio) := by
    rw [← sub_div, ← sub_div, abs_div, abs_div, abs_of_pos hslow, abs_of_pos hratio,
      ← mul_div_assoc, ← mul_div_assoc]
    gcongr
    exact (abs_abs_sub_abs_le_abs_sub _ _).trans hmoved
  have hlarge : |spread| / slow / ratio ≤ (1 + roundoff) * ((fast + slow) / slow / ratio) := by
    rw [← mul_div_assoc, ← mul_div_assoc]
    gcongr
  have hbound := hdiv (fast + slow) (by linarith)
  rw [abs_of_nonneg (hdiv |spread| (abs_nonneg _))] at hscaled
  calc _ ≤ errorAfter roundoff 5 * (|spread| / slow / ratio) +
        roundoff * ((fast + slow) / slow / ratio) :=
        (abs_sub_le _ _ _).trans (add_le_add hscaled hrest)
    _ ≤ 6 * roundoff * ((1 + roundoff) * ((fast + slow) / slow / ratio)) +
        roundoff * ((fast + slow) / slow / ratio) := by gcongr
    _ = (7 * roundoff + 6 * roundoff ^ 2) * ((fast + slow) / slow / ratio) := by ring
    _ ≤ 8 * roundoff * ((fast + slow) / slow / ratio) := by
        gcongr
        norm_num [roundoff]

variable (s) in
/-- The strength is that of exact arithmetic, up to a few roundings of the averages. -/
theorem strengthIn_default {fast slow : ℚ} (hfast : 0 < fast) (hslow : 0 < slow) :
    ∃ strength, s.strengthIn .default (rounded fast) (rounded slow) = .ok strength ∧
      0 ≤ strength ∧ strength ≤ 1 ∧ (rounded fast ≠ rounded slow → 0 < strength) ∧
      |strength - s.strength fast slow| ≤
        8 * roundoff * ((fast + slow) / slow / s.strengthScaleRatio) := by
  have hratio := s.ratio_pos
  have hden := rounded_pos hslow
  let scaled := rounded (rounded (rounded |rounded (rounded fast - rounded slow)| /
    rounded slow) / s.strengthScaleRatio)
  have heval : s.strengthIn .default (rounded fast) (rounded slow) = .ok (min 1 scaled) := by
    -- neither divisor is zero, so both divisions return
    have hfirst : DecimalContext.default.div (rounded |rounded (rounded fast - rounded slow)|)
        (rounded slow) = .ok (rounded (rounded |rounded (rounded fast - rounded slow)| /
          rounded slow)) := if_pos hden.ne'
    have hsecond (x : ℚ) : DecimalContext.default.div x s.strengthScaleRatio =
        .ok (rounded (x / s.strengthScaleRatio)) := if_pos hratio.ne'
    show (do
      let spreadRatio ← DecimalContext.default.div
        (rounded |rounded (rounded fast - rounded slow)|) (rounded slow)
      let scaled ← DecimalContext.default.div spreadRatio s.strengthScaleRatio
      return min 1 scaled) = Except.ok (min 1 scaled)
    rw [hfirst]
    simp only [hsecond, bind, Except.bind, pure, Except.pure, scaled]
  refine ⟨_, heval, ?_, min_le_left _ _, fun hne => ?_, ?_⟩
  · have hnonneg := rounded_nonneg (abs_nonneg (rounded (rounded fast - rounded slow)))
    exact le_min zero_le_one (rounded_nonneg (div_nonneg
      (rounded_nonneg (div_nonneg hnonneg hden.le)) hratio.le))
  · -- a spread that is not zero is not rounded to zero
    have hspread : rounded (rounded fast - rounded slow) ≠ 0 := by
      obtain ⟨δ, hδ, hround⟩ := rounded_factor (rounded fast - rounded slow)
      rw [hround]
      exact mul_ne_zero (sub_ne_zero.mpr hne) (factor_pos hδ).ne'
    have hpos := rounded_pos (abs_pos.mpr hspread)
    exact lt_min one_pos (rounded_pos (div_pos (rounded_pos (div_pos hpos hden)) hratio))
  · calc |min 1 scaled - s.strength fast slow|
        ≤ max |1 - 1| |scaled - |fast - slow| / slow / s.strengthScaleRatio| :=
          abs_min_sub_min_le_max _ _ _ _
      _ = |scaled - |fast - slow| / slow / s.strengthScaleRatio| := by simp
      _ ≤ _ := abs_rounded_scaled_sub_le hfast hslow hratio

/-! ## The signal -/

/-- The fast average is at most as many times the slow one as its window is shorter. -/
theorem fastMean_le {recent : List ℚ} (hpos : ∀ close ∈ recent, 0 < close)
    (hlength : s.slowWindow ≤ recent.length) :
    mean (lastValues s.fastWindow recent) ≤
      mean (lastValues s.slowWindow recent) * (s.slowWindow / s.fastWindow) := by
  have htwo := s.two_le_fast
  have hfast := s.fast_lt_slow
  have hf : (0 : ℚ) < s.fastWindow := by exact_mod_cast (by omega : 0 < s.fastWindow)
  have hs : (0 : ℚ) < s.slowWindow := by exact_mod_cast (by omega : 0 < s.slowWindow)
  -- the fast window is the end of the slow one
  obtain ⟨older, holder⟩ : lastValues s.fastWindow recent <:+ lastValues s.slowWindow recent := by
    have hsuffix := lastValues_suffix s.fastWindow (lastValues s.slowWindow recent)
    rwa [lastValues_of_suffix (lastValues_suffix _ _)
      (by rw [length_lastValues]; omega)] at hsuffix
  have hsum : (lastValues s.fastWindow recent).sum ≤ (lastValues s.slowWindow recent).sum := by
    have holder_nonneg : 0 ≤ older.sum := by
      refine List.sum_nonneg fun v hv => (hpos v ?_).le
      refine (lastValues_suffix s.slowWindow recent).mem ?_
      rw [← holder]
      exact List.mem_append_left _ hv
    rw [← holder, List.sum_append]
    exact le_add_of_nonneg_left holder_nonneg
  rw [mean, mean, length_lastValues, length_lastValues, min_eq_left (by omega),
    min_eq_left hlength, div_mul_div_cancel₀ hs.ne']
  exact div_le_div_of_nonneg_right hsum hf.le

/-- With rounded averages the action is that of exact arithmetic. -/
private theorem evaluateIn_default {snapshot : MarketSnapshot}
    (hlength : s.slowWindow + 1 ≤ snapshot.candles.length)
    (h : s.Representable n m snapshot.closes) :
    s.evaluateIn .default snapshot =
      if s.actionOn snapshot.closes = .hold then s.hold snapshot (reasonFor .hold)
      else
        s.strengthIn .default (rounded (mean (lastValues s.fastWindow snapshot.closes)))
            (rounded (mean (lastValues s.slowWindow snapshot.closes))) >>= fun strength =>
          Signal.validate snapshot.symbol (s.actionOn snapshot.closes) strength snapshot.asOf
            s.name (reasonFor (s.actionOn snapshot.closes)) := by
  have htwo := s.two_le_fast
  have hfast := s.fast_lt_slow
  have henough : ¬snapshot.closes.length < s.slowWindow + 1 := by simpa using hlength
  have hcloses : snapshot.candles.map Candle.close = snapshot.closes := rfl
  have hpos := snapshot.closes_pos
  have hbefore : ∀ close ∈ snapshot.closes.dropLast, close ∈ snapshot.closes := fun _ hclose =>
    List.mem_of_mem_dropLast hclose
  have hdrop : s.slowWindow ≤ snapshot.closes.dropLast.length := by
    rw [List.length_dropLast]
    omega
  obtain ⟨hnow, hnowSlow⟩ := h.both hpos (fun _ => id) (by omega)
  obtain ⟨hlast, hlastSlow⟩ := h.both hpos hbefore hdrop
  -- the two tests are on the exact spreads
  have hup : (rounded (mean (lastValues s.fastWindow snapshot.closes.dropLast)) ≤
        rounded (mean (lastValues s.slowWindow snapshot.closes.dropLast)) ∧
      rounded (mean (lastValues s.fastWindow snapshot.closes)) >
        rounded (mean (lastValues s.slowWindow snapshot.closes))) ↔
      s.actionOn snapshot.closes = .buy := by
    have hle := (hlastSlow.lt_iff hlast h.room_comm).not
    have hgt := hnowSlow.lt_iff hnow h.room_comm
    rw [actionOn, SignalAction.ofSpreads_eq_buy, spread, spread, sub_nonpos, sub_pos]
    exact and_congr (by simpa only [not_lt] using hle) hgt
  have hdown : (rounded (mean (lastValues s.fastWindow snapshot.closes.dropLast)) ≥
        rounded (mean (lastValues s.slowWindow snapshot.closes.dropLast)) ∧
      rounded (mean (lastValues s.fastWindow snapshot.closes)) <
        rounded (mean (lastValues s.slowWindow snapshot.closes))) ↔
      s.actionOn snapshot.closes = .sell := by
    have hge := (hlast.lt_iff hlastSlow h.room).not
    have hlt := hnow.lt_iff hnowSlow h.room
    rw [actionOn, SignalAction.ofSpreads_eq_sell, spread, spread, sub_nonneg, sub_neg]
    exact and_congr (by simpa only [not_lt] using hge) hlt
  simp only [evaluateIn, hcloses, henough, if_false, hnow.meanIn_eq, hnowSlow.meanIn_eq,
    hlast.meanIn_eq, hlastSlow.meanIn_eq, bind, Except.bind]
  simp only [hup, hdown]
  cases s.actionOn snapshot.closes <;> simp [reasonFor]

/-- The strategy in the default context never signals and says what exact arithmetic says, with
    a strength that is only off by a few roundings: as long as the closes and the windows leave
    the averages room in the context. An order that is not held has a positive strength. -/
theorem decimal_signal_agrees (s : SmaCrossoverStrategy) (snapshot : MarketSnapshot)
    (h : s.Representable n m snapshot.closes) :
    ∃ exactly approximate, s.evaluate snapshot = .ok exactly ∧
      s.evaluateIn .default snapshot = .ok approximate ∧
      Signal.Near (4 / 10 ^ 27 * (1 + s.slowWindow / s.fastWindow) / s.strengthScaleRatio)
        approximate exactly ∧
      (approximate.action = .hold → approximate.strength = 0) ∧
      (approximate.action ≠ .hold → 0 < approximate.strength) := by
  have hratio := s.ratio_pos
  have herror : 0 ≤ 4 / 10 ^ 27 * (1 + s.slowWindow / s.fastWindow) / s.strengthScaleRatio := by
    positivity
  by_cases hlength : s.slowWindow + 1 ≤ snapshot.candles.length
  · obtain ⟨exactly, hexactly, haction, hstrength, hreason, hsymbol, hasOf, hstrategy⟩ :=
      evaluate_ok hlength
    have heval := evaluateIn_default hlength h
    -- both strategies act alike, and only an action has a strength
    by_cases hhold : s.actionOn snapshot.closes = .hold
    · rw [if_pos hhold] at heval
      refine ⟨exactly, _, hexactly, heval.trans (Signal.validate_of_mem le_rfl zero_le_one),
        ⟨hsymbol.symm, hhold.symm.trans haction.symm, hasOf.symm, hstrategy.symm,
          (hhold ▸ hreason).symm, ?_⟩, fun _ => rfl, fun hne => absurd rfl hne⟩
      rw [hstrength, strengthOn_of_hold hhold, sub_zero, abs_zero]
      exact herror
    · have hcloses : s.slowWindow ≤ snapshot.closes.length := by
        rw [MarketSnapshot.length_closes]
        omega
      obtain ⟨hfast, hslow⟩ := h.both snapshot.closes_pos (fun _ => id) hcloses
      obtain ⟨strength, hrounded, hnonneg, hle, hpos, hnear⟩ :=
        s.strengthIn_default hfast.pos hslow.pos
      simp only [if_neg hhold, hrounded, bind, Except.bind, Signal.validate_of_mem hnonneg hle]
        at heval
      refine ⟨exactly, _, hexactly, heval, ⟨hsymbol.symm, haction.symm, hasOf.symm,
        hstrategy.symm, hreason.symm, ?_⟩, fun h => absurd h hhold, fun _ => hpos ?_⟩
      · rw [hstrength, strengthOn, if_neg hhold]
        refine hnear.trans ?_
        -- the fast average is at most so many times the slow one, as all closes are positive
        have hsum : (mean (lastValues s.fastWindow snapshot.closes) +
            mean (lastValues s.slowWindow snapshot.closes)) /
              mean (lastValues s.slowWindow snapshot.closes) ≤
            1 + s.slowWindow / s.fastWindow := by
          rw [div_le_iff₀ hslow.pos]
          linarith [fastMean_le snapshot.closes_pos hcloses]
        calc 8 * roundoff * ((mean (lastValues s.fastWindow snapshot.closes) +
              mean (lastValues s.slowWindow snapshot.closes)) /
                mean (lastValues s.slowWindow snapshot.closes) / s.strengthScaleRatio)
            ≤ 8 * roundoff * ((1 + s.slowWindow / s.fastWindow) / s.strengthScaleRatio) := by
              have := roundoff_pos
              gcongr
          _ = 4 / 10 ^ 27 * (1 + s.slowWindow / s.fastWindow) / s.strengthScaleRatio := by
              rw [roundoff]
              ring
      · have hne : mean (lastValues s.fastWindow snapshot.closes) ≠
            mean (lastValues s.slowWindow snapshot.closes) :=
          sub_ne_zero.mp (SignalAction.ofSpreads_ne_hold hhold)
        -- averages that differ still do when they are rounded
        rcases hne.lt_or_gt with hlt | hgt
        · exact ((hfast.lt_iff hslow h.room).mpr hlt).ne
        · exact ((hslow.lt_iff hfast h.room_comm).mpr hgt).ne'
  -- without enough history both hold
  · have hshort : (snapshot.candles.map Candle.close).length < s.slowWindow + 1 := by
      simpa using hlength
    have hsame : s.evaluateIn .default snapshot = s.evaluate snapshot := by
      simp only [evaluateIn, evaluate, hshort, if_true]
    rw [hsame]
    simp only [evaluate, hshort, if_true, hold, Signal.validate_of_mem le_rfl zero_le_one]
    exact ⟨_, _, rfl, rfl, ⟨rfl, rfl, rfl, rfl, rfl, by simpa using herror⟩, fun _ => rfl,
      fun hne => absurd rfl hne⟩

/-- Averages over three and seven closes, neither of which has finitely many digits. -/
theorem decimal_signal_agrees_thirds :
    let s : SmaCrossoverStrategy := ⟨3, 7, 1 / 10, by decide, by decide, by decide +kernel⟩
    let p := barSnapshot ⟨100, by decide⟩ (List.replicate 6 ⟨100, by decide⟩ ++ [⟨101, by decide⟩])
    ∃ exactly approximate, s.evaluate p = .ok exactly ∧ s.evaluateIn .default p = .ok approximate ∧
      exactly.action = .buy ∧
      Signal.Near (4 / 10 ^ 27 * (1 + 7 / 3) / (1 / 10)) approximate exactly ∧
      approximate.strength ≠ exactly.strength := by
  intro s p
  have hwhole : ∀ close ∈ p.closes, close = close.num / 10 ^ 0 ∧ close < 10 ^ 3 := by
    decide +kernel
  have hrep : s.Representable 0 3 p.closes :=
    ⟨fun close hclose => mem_grid.mpr ⟨close.num, (hwhole close hclose).1⟩,
      fun close hclose => (hwhole close hclose).2, by decide⟩
  -- the strengths differ in their last digits
  have hrun : ((s.evaluate p).toOption.all fun a => (s.evaluateIn .default p).toOption.all
      fun b => a.action = .buy ∧ b.strength ≠ a.strength) = true := by
    decide +kernel
  obtain ⟨exactly, approximate, hexactly, happroximate, hnear, -⟩ := decimal_signal_agrees s p hrep
  rw [hexactly, happroximate] at hrun
  obtain ⟨hbuy, hne⟩ := of_decide_eq_true hrun
  exact ⟨exactly, approximate, hexactly, happroximate, hbuy, hnear, hne⟩

end SmaCrossoverStrategy

end TradingBot
