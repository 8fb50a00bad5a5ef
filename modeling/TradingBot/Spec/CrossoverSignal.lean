import TradingBot.Strategy.SmaCrossover
import Mathlib.Tactic.Linarith
import Mathlib.Tactic.Positivity

/-!
# The signal of one snapshot

The signal is a function of the spread between the two averages before and after the
newest bar, and both spreads only look at the closes of the slow window and the one
before it. It does not depend on the unit of the prices, and mirrored prices give the
mirrored signal.
-/

namespace TradingBot

namespace MarketSnapshot

def closes (s : MarketSnapshot) : List ℚ := s.candles.map Candle.close

/-- Every close of a snapshot is positive, as each candle carries it. -/
theorem closes_pos (s : MarketSnapshot) : ∀ close ∈ s.closes, 0 < close := by
  intro close hclose
  obtain ⟨c, -, rfl⟩ := List.mem_map.mp hclose
  exact c.close_pos

/-- A snapshot has one close for each of its candles. -/
@[simp] theorem length_closes (s : MarketSnapshot) : s.closes.length = s.candles.length :=
  List.length_map _

end MarketSnapshot

/-- What the strategy says when the spread between its averages moves from one value to
    another: the spread has to arrive on the other side of zero, or leave zero. -/
def SignalAction.ofSpreads (previous current : ℚ) : SignalAction :=
  if previous ≤ 0 ∧ 0 < current then .buy
  else if 0 ≤ previous ∧ current < 0 then .sell
  else .hold

namespace SignalAction

/-- The same signal seen from the other side of the trade. -/
def opposite : SignalAction → SignalAction
  | buy => sell
  | sell => buy
  | hold => hold

/-- A buy is a spread that was not positive and has become so. -/
theorem ofSpreads_eq_buy {previous current : ℚ} :
    ofSpreads previous current = .buy ↔ previous ≤ 0 ∧ 0 < current := by
  unfold ofSpreads
  split
  · simp_all
  · split <;> simp_all

/-- A sell is a spread that was not negative and has become so. The test of the buy comes first,
    and the two exclude each other. -/
theorem ofSpreads_eq_sell {previous current : ℚ} :
    ofSpreads previous current = .sell ↔ 0 ≤ previous ∧ current < 0 := by
  unfold ofSpreads
  split
  next h =>
    simp only [reduceCtorEq, false_iff, not_and, not_lt]
    exact fun _ => h.2.le
  next => split <;> simp_all

/-- Averages that are level give no action. -/
theorem ofSpreads_ne_hold {previous current : ℚ} (h : ofSpreads previous current ≠ .hold) :
    current ≠ 0 := by
  rintro rfl
  exact h (by simp [ofSpreads])

/-- The scale of the spreads does not matter. -/
theorem ofSpreads_mul {k : ℚ} (hk : 0 < k) (previous current : ℚ) :
    ofSpreads (k * previous) (k * current) = ofSpreads previous current := by
  have hpos (x : ℚ) : 0 < k * x ↔ 0 < x := mul_pos_iff_of_pos_left hk
  have hnonneg (x : ℚ) : 0 ≤ k * x ↔ 0 ≤ x := mul_nonneg_iff_of_pos_left hk
  have hnonpos (x : ℚ) : k * x ≤ 0 ↔ x ≤ 0 := by rw [← not_lt, ← not_lt, hpos]
  have hneg (x : ℚ) : k * x < 0 ↔ x < 0 := by rw [← not_le, ← not_le, hnonneg]
  simp only [ofSpreads, hpos, hnonneg, hnonpos, hneg]

/-- Mirrored spreads give the opposite action. -/
theorem ofSpreads_neg (previous current : ℚ) :
    ofSpreads (-previous) (-current) = (ofSpreads previous current).opposite := by
  simp only [ofSpreads, Left.neg_nonpos_iff, Left.neg_pos_iff, Left.nonneg_neg_iff,
    Left.neg_neg_iff]
  split
  next hdown =>
    have hup : ¬(previous ≤ 0 ∧ 0 < current) := fun hup => hdown.2.not_gt hup.2
    rw [if_neg hup, opposite]
  next => split <;> rfl

end SignalAction

namespace SmaCrossoverStrategy

variable (s : SmaCrossoverStrategy)

/-- How far the fast average is above the slow one at the end of some closes. -/
def spread (closes : List ℚ) : ℚ :=
  mean (lastValues s.fastWindow closes) - mean (lastValues s.slowWindow closes)

/-- The closes that the averages of the newest bar and of the one before it look at. -/
def window (closes : List ℚ) : List ℚ := lastValues (s.slowWindow + 1) closes

/-- The action on a series of closes. -/
def actionOn (closes : List ℚ) : SignalAction :=
  .ofSpreads (s.spread closes.dropLast) (s.spread closes)

/-- The strength on a series of closes. -/
def strengthOn (closes : List ℚ) : ℚ :=
  if s.actionOn closes = .hold then 0
  else s.strength (mean (lastValues s.fastWindow closes)) (mean (lastValues s.slowWindow closes))

/-- The reason given for an action. -/
def reasonFor : SignalAction → String
  | .buy => "fast average crossed above slow"
  | .sell => "fast average crossed below slow"
  | .hold => "no crossover on the latest candle"

/-- The strength is at least zero and at most one, whatever the fast average is. -/
theorem strength_mem (fast : ℚ) {slow : ℚ} (hslow : 0 < slow) :
    0 ≤ s.strength fast slow ∧ s.strength fast slow ≤ 1 := by
  have hratio := s.ratio_pos
  exact ⟨le_min zero_le_one (by positivity), min_le_left _ _⟩

variable {s}

/-- The slow average of positive closes is positive, so that it can be divided by. -/
theorem slowMean_pos {closes : List ℚ} (hlength : s.slowWindow + 1 ≤ closes.length)
    (hpos : ∀ close ∈ closes, 0 < close) : 0 < mean (lastValues s.slowWindow closes) := by
  refine mean_pos ?_ fun close hclose => hpos close ((lastValues_suffix _ _).mem hclose)
  have := s.fast_lt_slow
  rw [← List.length_pos_iff, length_lastValues]
  omega

/-- Averages that are apart give a positive strength. -/
theorem strength_pos {fast slow : ℚ} (hslow : 0 < slow) (hne : fast - slow ≠ 0) :
    0 < s.strength fast slow := by
  have hspread := abs_pos.mpr hne
  have hratio := s.ratio_pos
  exact lt_min zero_lt_one (by positivity)

/-- The strength does not depend on the unit of the prices. -/
theorem strength_mul {k : ℚ} (hk : 0 < k) (fast slow : ℚ) :
    s.strength (k * fast) (k * slow) = s.strength fast slow := by
  rw [strength, strength, ← mul_sub, abs_mul, abs_of_pos hk, mul_div_mul_left _ _ hk.ne']

/-- With enough history, the signal is the action on the closes, at its strength. -/
theorem evaluate_ok {snapshot : MarketSnapshot}
    (hlength : s.slowWindow + 1 ≤ snapshot.candles.length) :
    ∃ signal, s.evaluate snapshot = .ok signal ∧ signal.action = s.actionOn snapshot.closes ∧
      signal.strength = s.strengthOn snapshot.closes ∧
      signal.reason = reasonFor (s.actionOn snapshot.closes) ∧
      signal.symbol = snapshot.symbol ∧ signal.asOf = snapshot.asOf ∧ signal.strategy = s.name := by
  have hmean : 0 < mean (lastValues s.slowWindow snapshot.closes) :=
    slowMean_pos (by simpa using hlength) snapshot.closes_pos
  have henough : ¬snapshot.closes.length < s.slowWindow + 1 := by simpa using hlength
  obtain ⟨hnonneg, hle⟩ := s.strength_mem (mean (lastValues s.fastWindow snapshot.closes)) hmean
  -- the two tests are on the spreads
  have hup : (mean (lastValues s.fastWindow snapshot.closes.dropLast) ≤
        mean (lastValues s.slowWindow snapshot.closes.dropLast) ∧
      mean (lastValues s.fastWindow snapshot.closes) >
        mean (lastValues s.slowWindow snapshot.closes)) ↔
      s.actionOn snapshot.closes = .buy := by
    rw [actionOn, SignalAction.ofSpreads_eq_buy, spread, spread, sub_nonpos, sub_pos]
  have hdown : (mean (lastValues s.fastWindow snapshot.closes.dropLast) ≥
        mean (lastValues s.slowWindow snapshot.closes.dropLast) ∧
      mean (lastValues s.fastWindow snapshot.closes) <
        mean (lastValues s.slowWindow snapshot.closes)) ↔
      s.actionOn snapshot.closes = .sell := by
    rw [actionOn, SignalAction.ofSpreads_eq_sell, spread, spread, sub_nonneg, sub_neg]
  have heval : s.evaluate snapshot =
      if s.actionOn snapshot.closes = .hold then
        s.hold snapshot (reasonFor .hold)
      else
        Signal.validate snapshot.symbol (s.actionOn snapshot.closes)
          (s.strength (mean (lastValues s.fastWindow snapshot.closes))
            (mean (lastValues s.slowWindow snapshot.closes)))
          snapshot.asOf s.name (reasonFor (s.actionOn snapshot.closes)) := by
    have hcloses : snapshot.candles.map Candle.close = snapshot.closes := rfl
    simp only [evaluate, hcloses, henough, if_false, hup, hdown]
    cases s.actionOn snapshot.closes <;> simp [reasonFor]
  rw [heval]
  split
  next hhold =>
    refine ⟨_, Signal.validate_of_mem le_rfl zero_le_one, hhold.symm, ?_, ?_, rfl, rfl, rfl⟩
    · rw [strengthOn, if_pos hhold]
    · rw [hhold]
  next hhold =>
    refine ⟨_, Signal.validate_of_mem hnonneg hle, rfl, ?_, rfl, rfl, rfl, rfl⟩
    rw [strengthOn, if_neg hhold]

/-- A signal is about the symbol of its snapshot. -/
theorem evaluate_symbol {snapshot : MarketSnapshot} {signal : Signal}
    (h : s.evaluate snapshot = .ok signal) : signal.symbol = snapshot.symbol := by
  by_cases hlength : s.slowWindow + 1 ≤ snapshot.candles.length
  · obtain ⟨signal', hsignal', -, -, -, hsymbol, -⟩ := evaluate_ok hlength
    cases h.symm.trans hsignal'
    exact hsymbol
  · have hshort : (snapshot.candles.map Candle.close).length < s.slowWindow + 1 := by
      simpa using hlength
    unfold evaluate at h
    simp only [hshort, if_true, hold, Signal.validate_of_mem le_rfl zero_le_one] at h
    cases h
    rfl

/-! ## The window -/

/-- The spread of a suffix is that of the whole series, if it holds the slow window. -/
theorem spread_of_suffix {closes all : List ℚ} (h : closes <:+ all)
    (hlength : s.slowWindow ≤ closes.length) : s.spread closes = s.spread all := by
  have hfast := s.fast_lt_slow
  rw [spread, spread, lastValues_of_suffix h (by omega), lastValues_of_suffix h hlength]

/-- The action only looks at the slow window and the close before it. -/
theorem actionOn_of_suffix {closes all : List ℚ} (h : closes <:+ all)
    (hlength : s.slowWindow + 1 ≤ closes.length) : s.actionOn closes = s.actionOn all := by
  have hbefore : closes.dropLast <:+ all.dropLast := by
    obtain ⟨older, rfl⟩ := h
    rw [List.dropLast_append_of_ne_nil (List.ne_nil_of_length_pos (by omega))]
    exact List.suffix_append _ _
  rw [actionOn, actionOn, spread_of_suffix h (by omega),
    spread_of_suffix hbefore (by rw [List.length_dropLast]; omega)]

/-- So does the strength. -/
theorem strengthOn_of_suffix {closes all : List ℚ} (h : closes <:+ all)
    (hlength : s.slowWindow + 1 ≤ closes.length) : s.strengthOn closes = s.strengthOn all := by
  have hfast := s.fast_lt_slow
  rw [strengthOn, strengthOn, actionOn_of_suffix h hlength, lastValues_of_suffix h (by omega),
    lastValues_of_suffix h (by omega)]

/-- The window is the end of the closes. -/
theorem window_suffix (closes : List ℚ) : s.window closes <:+ closes := lastValues_suffix _ _

/-- With enough history the window is full. -/
theorem length_window {closes : List ℚ} (h : s.slowWindow + 1 ≤ closes.length) :
    (s.window closes).length = s.slowWindow + 1 := by
  rw [window, length_lastValues, min_eq_left h]

/-! ## The unit of the prices -/

/-- Prices in another unit scale the spread by the unit. -/
theorem spread_mul (k : ℚ) (closes : List ℚ) :
    s.spread (closes.map (k * ·)) = k * s.spread closes := by
  rw [spread, spread, lastValues_map, lastValues_map, mean_map_mul, mean_map_mul, mul_sub]

/-- The action does not depend on the unit of the prices. -/
theorem actionOn_mul {k : ℚ} (hk : 0 < k) (closes : List ℚ) :
    s.actionOn (closes.map (k * ·)) = s.actionOn closes := by
  rw [actionOn, actionOn, ← List.map_dropLast, spread_mul, spread_mul,
    SignalAction.ofSpreads_mul hk]

/-- Neither does the strength. -/
theorem strengthOn_mul {k : ℚ} (hk : 0 < k) (closes : List ℚ) :
    s.strengthOn (closes.map (k * ·)) = s.strengthOn closes := by
  rw [strengthOn, strengthOn, actionOn_mul hk, lastValues_map, lastValues_map, mean_map_mul,
    mean_map_mul, strength_mul hk]

/-! ## Mirrored prices -/

/-- Mirrored prices mirror the spread. The series must not be empty: the average of no closes is
    zero on both sides. -/
theorem spread_sub (m : ℚ) {closes : List ℚ} (h : closes ≠ []) :
    s.spread (closes.map (m - ·)) = -s.spread closes := by
  have hne {n : ℕ} (hn : 0 < n) : lastValues n closes ≠ [] := by
    have hlength := List.length_pos_iff.mpr h
    rw [← List.length_pos_iff, length_lastValues]
    omega
  have htwo := s.two_le_fast
  have hfast := s.fast_lt_slow
  rw [spread, spread, lastValues_map, lastValues_map, mean_map_sub m (hne (by omega)),
    mean_map_sub m (hne (by omega))]
  ring

/-- Mirrored prices give the opposite action. Two closes are needed, as the bar before the newest
    one is looked at too. -/
theorem actionOn_sub (m : ℚ) {closes : List ℚ} (h : 2 ≤ closes.length) :
    s.actionOn (closes.map (m - ·)) = (s.actionOn closes).opposite := by
  have hbefore : closes.dropLast ≠ [] := by
    rw [← List.length_pos_iff, List.length_dropLast]
    omega
  rw [actionOn, actionOn, ← List.map_dropLast, spread_sub m hbefore,
    spread_sub m (List.ne_nil_of_length_pos (by omega)), SignalAction.ofSpreads_neg]

/-! ## The strength -/

/-- A hold has no strength. -/
theorem strengthOn_of_hold {closes : List ℚ} (h : s.actionOn closes = .hold) :
    s.strengthOn closes = 0 := if_pos h

/-- An action has a positive strength, and at most one. -/
theorem strengthOn_mem {closes : List ℚ} (hlength : s.slowWindow + 1 ≤ closes.length)
    (hpos : ∀ close ∈ closes, 0 < close) (h : s.actionOn closes ≠ .hold) :
    0 < s.strengthOn closes ∧ s.strengthOn closes ≤ 1 := by
  have hmean := slowMean_pos hlength hpos
  rw [strengthOn, if_neg h]
  exact ⟨strength_pos hmean (SignalAction.ofSpreads_ne_hold h), (s.strength_mem _ hmean).2⟩

/-- The signal of a snapshot with enough history only depends on how the closes of its
    window relate to each other: proportional closes give the same action and strength, and
    mirrored closes exchange the two actions. The strength is zero for a hold, and positive
    and at most one otherwise. -/
theorem evaluate_relative (s : SmaCrossoverStrategy) (p q : MarketSnapshot)
    (hp : s.slowWindow + 1 ≤ p.candles.length) (hq : s.slowWindow + 1 ≤ q.candles.length) :
    (∀ k, 0 < k → s.window q.closes = (s.window p.closes).map (k * ·) →
      ∃ a b, s.evaluate p = .ok a ∧ s.evaluate q = .ok b ∧ a.action = b.action ∧
        a.strength = b.strength ∧ (a.action = .hold → a.strength = 0) ∧
        (a.action ≠ .hold → 0 < a.strength ∧ a.strength ≤ 1)) ∧
    (∀ m, s.window q.closes = (s.window p.closes).map (2 * m - ·) →
      ∃ a b, s.evaluate p = .ok a ∧ s.evaluate q = .ok b ∧
        (b.action = .buy ↔ a.action = .sell) ∧ (b.action = .sell ↔ a.action = .buy)) := by
  obtain ⟨a, ha, haction, hstrength, -⟩ := evaluate_ok hp
  obtain ⟨b, hb, hbaction, hbstrength, -⟩ := evaluate_ok hq
  rw [← p.length_closes] at hp
  rw [← q.length_closes] at hq
  -- both signals are those of the windows
  have hpwindow := (length_window hp).ge
  have hqwindow := (length_window hq).ge
  rw [← actionOn_of_suffix (window_suffix _) hqwindow] at hbaction
  rw [← strengthOn_of_suffix (window_suffix _) hqwindow] at hbstrength
  constructor
  · intro k hk hwindow
    refine ⟨a, b, ha, hb, ?_, ?_, fun hhold => ?_, fun hhold => ?_⟩
    · rw [haction, hbaction, hwindow, actionOn_mul hk,
        actionOn_of_suffix (window_suffix _) hpwindow]
    · rw [hstrength, hbstrength, hwindow, strengthOn_mul hk,
        strengthOn_of_suffix (window_suffix _) hpwindow]
    · exact hstrength.trans (strengthOn_of_hold (haction ▸ hhold))
    · exact hstrength ▸ strengthOn_mem hp p.closes_pos (haction ▸ hhold)
  · intro m hwindow
    have htwo : 2 ≤ (s.window p.closes).length := by
      have := s.two_le_fast
      have := s.fast_lt_slow
      omega
    have hopposite : b.action = a.action.opposite := by
      rw [haction, hbaction, hwindow, actionOn_sub _ htwo,
        actionOn_of_suffix (window_suffix _) hpwindow]
    refine ⟨a, b, ha, hb, ?_⟩
    rw [hopposite]
    cases a.action <;> simp [SignalAction.opposite]

end SmaCrossoverStrategy

/-! ## Bars to observe -/

/-- Bars of fifteen minutes on which the price stands still at the given closes. -/
def bars (openTime : Instant) : List {close : ℚ // 0 < close} → List Candle
  | [] => []
  | close :: closes =>
    ⟨"BTC/USDT", openTime, close, close, close, close, 1, close.2, close.2, close.2, close.2,
      zero_le_one, ⟨le_rfl, le_rfl⟩, ⟨le_rfl, le_rfl⟩⟩ :: bars (openTime + 900000000) closes

/-- The bars stand at the closes they were built from. -/
theorem map_close_bars (openTime : Instant) (closes : List {close : ℚ // 0 < close}) :
    (bars openTime closes).map Candle.close = closes.map Subtype.val := by
  induction closes generalizing openTime with
  | nil => rfl
  | cons close closes ih => rw [bars, List.map_cons, ih, List.map_cons]

/-- All the bars are of one symbol, and none opens before the first. -/
theorem mem_bars {openTime : Instant} {closes : List {close : ℚ // 0 < close}} {c : Candle}
    (h : c ∈ bars openTime closes) : c.symbol = "BTC/USDT" ∧ openTime ≤ c.openTime := by
  induction closes generalizing openTime with
  | nil => exact absurd h List.not_mem_nil
  | cons close closes ih =>
    rcases List.mem_cons.mp h with rfl | h
    · exact ⟨rfl, le_rfl⟩
    · exact ⟨(ih h).1, (le_add_of_nonneg_right (by simp)).trans (ih h).2⟩

/-- The bars follow each other in time. -/
theorem bars_ascending (openTime : Instant) (closes : List {close : ℚ // 0 < close}) :
    ((bars openTime closes).map Candle.openTime).Pairwise (· < ·) := by
  induction closes generalizing openTime with
  | nil => exact List.Pairwise.nil
  | cons close closes ih =>
    rw [bars, List.map_cons, List.pairwise_cons]
    refine ⟨fun t ht => ?_, ih _⟩
    obtain ⟨c, hc, rfl⟩ := List.mem_map.mp ht
    have hlater : openTime + 900000000 ≤ c.openTime := (mem_bars hc).2
    exact (lt_add_of_pos_right openTime (by simp)).trans_le hlater

/-- A snapshot of such bars. -/
def barSnapshot (first : {close : ℚ // 0 < close}) (closes : List {close : ℚ // 0 < close}) :
    MarketSnapshot where
  symbol := "BTC/USDT"
  timeframe := "15m"
  candles := bars 0 (first :: closes)
  nonempty := List.cons_ne_nil _ _
  ascending := bars_ascending _ _
  one_symbol _ hc := (mem_bars hc).1

/-- The snapshot has the closes it was built from. -/
theorem closes_barSnapshot (first : {close : ℚ // 0 < close})
    (closes : List {close : ℚ // 0 < close}) :
    (barSnapshot first closes).closes = (first :: closes).map Subtype.val :=
  map_close_bars _ _

namespace SmaCrossoverStrategy

/-- The same rise in two units of the quote. -/
theorem evaluate_relative_doubled :
    let s : SmaCrossoverStrategy := ⟨2, 4, 1 / 100, by decide, by decide, by decide +kernel⟩
    let p := barSnapshot ⟨100, by decide⟩ (List.replicate 3 ⟨100, by decide⟩ ++ [⟨101, by decide⟩])
    let q := barSnapshot ⟨7, by decide⟩ (List.replicate 4 ⟨200, by decide⟩ ++ [⟨202, by decide⟩])
    ∃ a b, s.evaluate p = .ok a ∧ s.evaluate q = .ok b ∧ a.action = b.action ∧
      a.strength = b.strength ∧ (a.action = .hold → a.strength = 0) ∧
      (a.action ≠ .hold → 0 < a.strength ∧ a.strength ≤ 1) := by
  intro s p q
  have hwindow : s.window q.closes = (s.window p.closes).map (2 * ·) := by decide +kernel
  exact (evaluate_relative s p q (by decide +kernel) (by decide +kernel)).1 2 two_pos hwindow

end SmaCrossoverStrategy

end TradingBot
