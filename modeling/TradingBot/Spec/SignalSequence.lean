import TradingBot.ForMathlib.Crossing
import TradingBot.Spec.CrossoverSignal

/-!
# The signals of a series of bars

A strategy that is asked on every bar says buy where the spread of its averages rises
through zero, and sell where it falls through. The two do not alternate in every series:
averages that meet and part again on the same side say the same thing twice.
-/

namespace TradingBot.SmaCrossoverStrategy

variable (s : SmaCrossoverStrategy)

/-- The strategy answers a snapshot with an action. -/
def Says (action : SignalAction) (snapshot : MarketSnapshot) : Prop :=
  ∃ signal, s.evaluate snapshot = .ok signal ∧ signal.action = action

/-- From some bar on, the snapshot at every bar of a series ends there and holds one candle
    more than the slow window. -/
def Observes (closes : List ℚ) (first : ℕ) (views : ℕ → MarketSnapshot) : Prop :=
  ∀ t, first ≤ t → t < closes.length →
    (views t).closes <:+ closes.take (t + 1) ∧ s.slowWindow + 1 ≤ (views t).candles.length

/-- Between two bars on which the strategy says buy there is one on which it says sell, and
    the other way round. -/
structure Alternates (first stop : ℕ) (views : ℕ → MarketSnapshot) : Prop where
  buys : ∀ i j, first ≤ i → i < j → j < stop → s.Says .buy (views i) → s.Says .buy (views j) →
    ∃ k, i < k ∧ k < j ∧ s.Says .sell (views k)
  sells : ∀ i j, first ≤ i → i < j → j < stop → s.Says .sell (views i) →
    s.Says .sell (views j) → ∃ k, i < k ∧ k < j ∧ s.Says .buy (views k)

/-- The spread after the first closes of a series. -/
def spreadAfter (closes : List ℚ) (n : ℕ) : ℚ := s.spread (closes.take n)

variable {s} {closes : List ℚ} {first : ℕ} {views : ℕ → MarketSnapshot}

/-- The answer on a bar is about the spreads before and after it. -/
theorem Observes.says_iff (h : s.Observes closes first views) {t : ℕ} (hfirst : first ≤ t)
    (ht : t < closes.length) {action : SignalAction} :
    s.Says action (views t) ↔
      SignalAction.ofSpreads (s.spreadAfter closes t) (s.spreadAfter closes (t + 1)) = action := by
  obtain ⟨hsuffix, hlength⟩ := h t hfirst ht
  obtain ⟨signal, hsignal, haction, -⟩ := evaluate_ok hlength
  rw [← (views t).length_closes] at hlength
  have htake : (closes.take (t + 1)).dropLast = closes.take t := by
    rw [List.dropLast_eq_take, List.length_take_of_le ht, List.take_take]
    simp
  rw [actionOn_of_suffix hsuffix hlength, actionOn, htake] at haction
  constructor
  · rintro ⟨signal', hsignal', rfl⟩
    cases hsignal.symm.trans hsignal'
    exact haction.symm
  · intro hspreads
    exact ⟨signal, hsignal, haction.trans hspreads⟩

/-- The strategy says to buy exactly where the spread rises through zero. -/
theorem Observes.says_buy_iff (h : s.Observes closes first views) {t : ℕ} (hfirst : first ≤ t)
    (ht : t < closes.length) :
    s.Says .buy (views t) ↔ RisesAt (s.spreadAfter closes) t := by
  rw [h.says_iff hfirst ht, SignalAction.ofSpreads_eq_buy, RisesAt]

/-- The strategy says to sell exactly where the spread falls through zero. -/
theorem Observes.says_sell_iff (h : s.Observes closes first views) {t : ℕ} (hfirst : first ≤ t)
    (ht : t < closes.length) :
    s.Says .sell (views t) ↔ FallsAt (s.spreadAfter closes) t := by
  rw [h.says_iff hfirst ht, SignalAction.ofSpreads_eq_sell, FallsAt]

/-- A series shown from its first bar on is observed once the slow window is full. -/
theorem observes_barSnapshot (s : SmaCrossoverStrategy)
    (close : {close : ℚ // 0 < close}) (closes : List {close : ℚ // 0 < close}) :
    s.Observes ((close :: closes).map Subtype.val) s.slowWindow
      fun t => barSnapshot close (closes.take t) := by
  intro t hslow ht
  rw [List.length_map, List.length_cons] at ht
  constructor
  · rw [closes_barSnapshot, ← List.map_take, List.take_succ_cons]
  · rw [← MarketSnapshot.length_closes, closes_barSnapshot, List.length_map, List.length_cons,
      List.length_take]
    omega

/-- The signals of an observed series alternate exactly when its averages never meet from
    one side, after having been level or on the other side, and part again to the side they
    came from. -/
theorem alternates_iff (s : SmaCrossoverStrategy) (closes : List ℚ) (first : ℕ)
    (views : ℕ → MarketSnapshot) (hviews : s.Observes closes first views) :
    s.Alternates first closes.length views ↔
      ¬TouchesFromAbove (s.spreadAfter closes) first closes.length ∧
        ¬TouchesFromBelow (s.spreadAfter closes) first closes.length := by
  have hbuy {t : ℕ} (hfirst : first ≤ t) (ht : t < closes.length) :=
    hviews.says_buy_iff hfirst ht
  have hsell {t : ℕ} (hfirst : first ≤ t) (ht : t < closes.length) :=
    hviews.says_sell_iff hfirst ht
  -- both sides are about crossings of the spread
  rw [← rises_alternate_iff, ← falls_alternate_iff]
  constructor
  · rintro ⟨hbuys, hsells⟩
    constructor
    · intro i j hi hij hj hrise hrise'
      obtain ⟨k, hik, hkj, hsays⟩ := hbuys i j hi hij hj ((hbuy hi (hij.trans hj)).mpr hrise)
        ((hbuy (hi.trans hij.le) hj).mpr hrise')
      exact ⟨k, hik, hkj, (hsell (hi.trans hik.le) (hkj.trans hj)).mp hsays⟩
    · intro i j hi hij hj hfall hfall'
      obtain ⟨k, hik, hkj, hsays⟩ := hsells i j hi hij hj ((hsell hi (hij.trans hj)).mpr hfall)
        ((hsell (hi.trans hij.le) hj).mpr hfall')
      exact ⟨k, hik, hkj, (hbuy (hi.trans hik.le) (hkj.trans hj)).mp hsays⟩
  · rintro ⟨hrises, hfalls⟩
    constructor
    · intro i j hi hij hj hsays hsays'
      obtain ⟨k, hik, hkj, hfall⟩ := hrises i j hi hij hj ((hbuy hi (hij.trans hj)).mp hsays)
        ((hbuy (hi.trans hij.le) hj).mp hsays')
      exact ⟨k, hik, hkj, (hsell (hi.trans hik.le) (hkj.trans hj)).mpr hfall⟩
    · intro i j hi hij hj hsays hsays'
      obtain ⟨k, hik, hkj, hrise⟩ := hfalls i j hi hij hj ((hsell hi (hij.trans hj)).mp hsays)
        ((hsell (hi.trans hij.le) hj).mp hsays')
      exact ⟨k, hik, hkj, (hbuy (hi.trans hik.le) (hkj.trans hj)).mpr hrise⟩

/-- Windows of two and three bars. -/
def shortWindows : SmaCrossoverStrategy := ⟨2, 3, 1 / 50, by decide, by decide, by decide +kernel⟩

/-- A steady rise is bought once. -/
theorem alternates_iff_rise :
    let rise : List {close : ℚ // 0 < close} :=
      [⟨100, by decide⟩, ⟨100, by decide⟩, ⟨101, by decide⟩, ⟨102, by decide⟩, ⟨104, by decide⟩]
    shortWindows.Alternates 3 6 fun t => barSnapshot ⟨100, by decide⟩ (rise.take t) := by
  intro rise
  have hviews : shortWindows.Observes [100, 100, 100, 101, 102, 104] 3
      fun t => barSnapshot ⟨100, by decide⟩ (rise.take t) :=
    observes_barSnapshot shortWindows ⟨100, by decide⟩ rise
  -- a touch takes three bars, and the averages are apart on the second
  have happart : shortWindows.spreadAfter [100, 100, 100, 101, 102, 104] 5 ≠ 0 := by
    decide +kernel
  refine (alternates_iff shortWindows _ _ _ hviews).mpr ⟨?_, ?_⟩
  · rintro ⟨m, i, j, hm, hmi, hij, hj, -, -, hzero, -⟩
    have hj : j ≤ 6 := hj
    exact happart (hzero 5 (by omega) (by omega))
  · rintro ⟨m, i, j, hm, hmi, hij, hj, -, -, hzero, -⟩
    have hj : j ≤ 6 := hj
    exact happart (neg_eq_zero.mp (hzero 5 (by omega) (by omega)))

/-- The averages of two and three bars rise apart, meet and rise apart again: the same
    trend is bought twice. -/
theorem not_alternates_touch :
    let touch : List {close : ℚ // 0 < close} :=
      [⟨100, by decide⟩, ⟨100, by decide⟩, ⟨101, by decide⟩, ⟨99, by decide⟩, ⟨104, by decide⟩]
    let views := fun t => barSnapshot ⟨100, by decide⟩ (touch.take t)
    shortWindows.Observes [100, 100, 100, 101, 99, 104] 3 views ∧
      ¬shortWindows.Alternates 3 6 views := by
  intro touch views
  have hviews : shortWindows.Observes [100, 100, 100, 101, 99, 104] 3 views :=
    observes_barSnapshot shortWindows ⟨100, by decide⟩ touch
  refine ⟨hviews, fun halternates => ?_⟩
  have hfirst : shortWindows.Says .buy (views 3) :=
    (hviews.says_buy_iff (by decide) (by decide)).mpr (by decide +kernel)
  have hagain : shortWindows.Says .buy (views 5) :=
    (hviews.says_buy_iff (by decide) (by decide)).mpr (by decide +kernel)
  -- between the two buys there would be a sell, and only one bar lies there
  obtain ⟨k, hk, hk', hsell⟩ :=
    halternates.buys 3 5 (by decide) (by decide) (by decide) hfirst hagain
  obtain rfl : k = 4 := by omega
  have hfall := (hviews.says_sell_iff (by decide) (by decide)).mp hsell
  exact absurd hfall (by decide +kernel)

end TradingBot.SmaCrossoverStrategy
