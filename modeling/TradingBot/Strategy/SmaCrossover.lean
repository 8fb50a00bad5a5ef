import TradingBot.Domain.Market
import TradingBot.Domain.Orders
import Mathlib.Algebra.BigOperators.Ring.List
import Mathlib.Algebra.Order.BigOperators.Group.List
import Mathlib.Tactic.Ring

/-!
# Strategies

A strategy turns a market snapshot into an opinion. It is a function of the snapshot
alone, with no network, database or clock behind it. The one that ships is a moving
average crossover.
-/

namespace TradingBot

/-- Turns a market snapshot into an opinion. -/
structure Strategy where
  name : String
  evaluate : MarketSnapshot → Except Error Signal

/-- `_mean`. -/
def mean (values : List ℚ) : ℚ := values.sum / values.length

/-- `values[-n:]`. -/
def lastValues (n : ℕ) (values : List ℚ) : List ℚ := values.drop (values.length - n)

/-! ## Slices and their means -/

/-- There are as many last values as asked for, or as there are. -/
@[simp] theorem length_lastValues (n : ℕ) (values : List ℚ) :
    (lastValues n values).length = min n values.length := by
  simp only [lastValues, List.length_drop]
  omega

/-- The last values of an image are the image of the last values. -/
theorem lastValues_map (f : ℚ → ℚ) (n : ℕ) (values : List ℚ) :
    lastValues n (values.map f) = (lastValues n values).map f := by
  rw [lastValues, lastValues, List.length_map, List.map_drop]

/-- A slice from the end is the same in every suffix that contains it. -/
theorem lastValues_of_suffix {n : ℕ} {values all : List ℚ} (h : values <:+ all)
    (hn : n ≤ values.length) : lastValues n values = lastValues n all := by
  obtain ⟨older, rfl⟩ := h
  have hskip : (older ++ values).length - n = older.length + (values.length - n) := by
    rw [List.length_append]
    omega
  rw [lastValues, lastValues, hskip, List.drop_length_add_append]

/-- The last values are the end of the series. -/
theorem lastValues_suffix (n : ℕ) (values : List ℚ) : lastValues n values <:+ values :=
  List.drop_suffix _ _

/-- The mean of prices at a scale is the mean at that scale. -/
theorem mean_map_mul (k : ℚ) (values : List ℚ) : mean (values.map (k * ·)) = k * mean values := by
  rw [mean, mean, List.length_map, List.sum_map_mul_left, List.map_id', mul_div_assoc]

/-- The sum of mirrored values. -/
private theorem sum_map_sub (m : ℚ) (values : List ℚ) :
    (values.map (m - ·)).sum = m * values.length - values.sum := by
  induction values with
  | nil => simp
  | cons v vs ih =>
    simp only [List.map_cons, List.sum_cons, ih, List.length_cons, Nat.cast_add, Nat.cast_one]
    ring

/-- The mean of reflected prices is the reflected mean. -/
theorem mean_map_sub (m : ℚ) {values : List ℚ} (h : values ≠ []) :
    mean (values.map (m - ·)) = m - mean values := by
  have hlength : (values.length : ℚ) ≠ 0 :=
    Nat.cast_ne_zero.mpr fun hnil => h (List.length_eq_zero_iff.mp hnil)
  rw [mean, mean, List.length_map, sum_map_sub, sub_div, mul_div_cancel_right₀ _ hlength]

/-- The mean of positive values is positive. -/
theorem mean_pos {values : List ℚ} (h : values ≠ []) (hpos : ∀ v ∈ values, 0 < v) :
    0 < mean values := by
  refine div_pos (List.sum_pos values hpos h) (Nat.cast_pos.mpr ?_)
  exact List.length_pos_iff.mpr h

/-! ## The strategy -/

/-- Moving average crossover. -/
structure SmaCrossoverStrategy where
  fastWindow : ℕ
  slowWindow : ℕ
  strengthScaleRatio : ℚ
  two_le_fast : 2 ≤ fastWindow
  fast_lt_slow : fastWindow < slowWindow
  ratio_pos : 0 < strengthScaleRatio
  deriving Repr

namespace SmaCrossoverStrategy

/-- The constructor of the source, with its errors. -/
def create (fastWindow slowWindow : ℕ) (strengthScaleRatio : ℚ) :
    Except Error SmaCrossoverStrategy :=
  if hfast : ¬2 ≤ fastWindow then
    .error (.configurationError "fast_window must be at least 2" none)
  else if hslow : ¬fastWindow < slowWindow then
    .error (.configurationError "fast_window must be strictly shorter than slow_window" none)
  else if hratio : ¬0 < strengthScaleRatio then
    .error (.configurationError "strength_scale_ratio must be positive" none)
  else
    .ok ⟨fastWindow, slowWindow, strengthScaleRatio, not_not.mp hfast, not_not.mp hslow,
      not_not.mp hratio⟩

def name (s : SmaCrossoverStrategy) : String :=
  "sma_crossover_" ++ toString s.fastWindow ++ "_" ++ toString s.slowWindow

/-- `_strength`: the average spread, scaled into the unit interval. -/
def strength (s : SmaCrossoverStrategy) (fast slow : ℚ) : ℚ :=
  let spreadRatio := |fast - slow| / slow
  let scaled := spreadRatio / s.strengthScaleRatio
  min 1 scaled

/-- `_hold`. -/
def hold (s : SmaCrossoverStrategy) (snapshot : MarketSnapshot) (reason : String) :
    Except Error Signal :=
  Signal.validate snapshot.symbol .hold 0 snapshot.asOf s.name reason

def evaluate (s : SmaCrossoverStrategy) (snapshot : MarketSnapshot) : Except Error Signal :=
  let closes := snapshot.candles.map Candle.close
  -- one more than the slow window: a crossover needs the averages of the previous bar too
  let required := s.slowWindow + 1
  if closes.length < required then
    s.hold snapshot ("not enough history: " ++ toString closes.length ++ " candles, " ++
      toString required ++ " required")
  else
    let currentFast := mean (lastValues s.fastWindow closes)
    let currentSlow := mean (lastValues s.slowWindow closes)
    let previousFast := mean (lastValues s.fastWindow closes.dropLast)
    let previousSlow := mean (lastValues s.slowWindow closes.dropLast)
    -- equal averages on the previous bar count as a crossover either way
    let crossedUp : Bool := previousFast ≤ previousSlow ∧ currentFast > currentSlow
    let crossedDown : Bool := previousFast ≥ previousSlow ∧ currentFast < currentSlow
    if !(crossedUp || crossedDown) then
      s.hold snapshot "no crossover on the latest candle"
    else
      let action := if crossedUp then .buy else .sell
      Signal.validate snapshot.symbol action (s.strength currentFast currentSlow) snapshot.asOf
        s.name (if crossedUp then "fast average crossed above slow"
          else "fast average crossed below slow")

/-- The strategy as the cycle takes it. -/
def strategy (s : SmaCrossoverStrategy) : Strategy := ⟨s.name, s.evaluate⟩

end SmaCrossoverStrategy

end TradingBot
