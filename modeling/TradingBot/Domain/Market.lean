import TradingBot.Errors
import TradingBot.ForMathlib.Except
import Mathlib.Data.List.Sort

/-!
# Market data

The candles and snapshots a cycle observes. A snapshot keeps, as fields, the facts
its validators checked: at least one candle, strictly ascending open times, and one
symbol throughout.
-/

namespace TradingBot

/-- One OHLCV bar. -/
structure Candle where
  symbol : String
  openTime : Instant
  open_ : ℚ
  high : ℚ
  low : ℚ
  close : ℚ
  volume : ℚ
  open_pos : 0 < open_
  high_pos : 0 < high
  low_pos : 0 < low
  close_pos : 0 < close
  volume_nonneg : 0 ≤ volume
  open_bounds : low ≤ open_ ∧ open_ ≤ high
  close_bounds : low ≤ close ∧ close ≤ high
  deriving DecidableEq, Repr

namespace Candle

/-- The constraints on single fields. -/
def fieldChecks (open_ high low close volume : ℚ) : List FieldCheck :=
  [.gtZero "open" open_, .gtZero "high" high, .gtZero "low" low, .gtZero "close" close,
    .geZero "volume" volume]

/-- `check_bounds`. -/
def boundChecks (open_ high low close : ℚ) : List FieldCheck :=
  [.rule "high is below low" (¬high < low),
    .rule "open is outside the low-high range" (low ≤ open_ ∧ open_ ≤ high),
    .rule "close is outside the low-high range" (low ≤ close ∧ close ≤ high)]

/-- Build a candle. The bounds are only looked at once every field is valid, and the
    first bound that fails is the one reported. -/
def validate (symbol : String) (openTime : Instant) (open_ high low close volume : ℚ) :
    Except Error Candle :=
  if hf : AllHold (fieldChecks open_ high low close volume) then
    if hb : AllHold (boundChecks open_ high low close) then
      .ok { symbol, openTime, open_, high, low, close, volume
            open_pos := hf.1, high_pos := hf.2.1, low_pos := hf.2.2.1, close_pos := hf.2.2.2.1
            volume_nonneg := hf.2.2.2.2.1, open_bounds := hb.2.1, close_bounds := hb.2.2.1 }
    else
      .error (.validationError "Candle" ((failures (boundChecks open_ high low close)).take 1))
  else .error (.validationError "Candle" (failures (fieldChecks open_ high low close volume)))

/-- Build a candle of decimals that may be infinite or NaN. -/
def validateDecimals (symbol : String) (openTime : Instant)
    (open_ high low close volume : Option ℚ) : Except Error Candle :=
  match open_, high, low, close, volume with
  | some open_, some high, some low, some close, some volume =>
    validate symbol openTime open_ high low close volume
  | open_, high, low, close, volume =>
    .error (.validationError "Candle" (failures
      [.finite .gtZero "open" open_, .finite .gtZero "high" high, .finite .gtZero "low" low,
        .finite .gtZero "close" close, .finite .geZero "volume" volume]))

/-- A candle that was accepted carries the values it was built from. -/
theorem validate_ok {symbol : String} {openTime : Instant} {open_ high low close volume : ℚ}
    {c : Candle} (h : validate symbol openTime open_ high low close volume = .ok c) :
    c.symbol = symbol ∧ c.openTime = openTime ∧ c.open_ = open_ ∧ c.high = high ∧ c.low = low ∧
      c.close = close ∧ c.volume = volume := by
  unfold validate at h
  split at h
  next =>
    split at h
    next => cases h; exact ⟨rfl, rfl, rfl, rfl, rfl, rfl, rfl⟩
    next => cases h
  next => cases h

/-- Exactly the values inside the bounds are accepted. -/
theorem validate_of_bounds (symbol : String) (openTime : Instant)
    {open_ high low close volume : ℚ} (hlow : 0 < low) (hvolume : 0 ≤ volume)
    (hopen : low ≤ open_ ∧ open_ ≤ high) (hclose : low ≤ close ∧ close ≤ high) :
    ∃ c, validate symbol openTime open_ high low close volume = .ok c := by
  have hfields : AllHold (fieldChecks open_ high low close volume) :=
    ⟨hlow.trans_le hopen.1, hlow.trans_le (hopen.1.trans hopen.2), hlow, hlow.trans_le hclose.1,
      hvolume, trivial⟩
  have hbounds : AllHold (boundChecks open_ high low close) :=
    ⟨not_lt.mpr (hopen.1.trans hopen.2), hopen, hclose, trivial⟩
  exact ⟨_, (dif_pos hfields).trans (dif_pos hbounds)⟩

/-- A candle is what its own values build. -/
theorem validate_self (c : Candle) :
    validate c.symbol c.openTime c.open_ c.high c.low c.close c.volume = .ok c := by
  obtain ⟨c', hc'⟩ := validate_of_bounds c.symbol c.openTime c.low_pos c.volume_nonneg
    c.open_bounds c.close_bounds
  obtain ⟨hsymbol, htime, hopen, hhigh, hlow, hclose, hvolume⟩ := validate_ok hc'
  rw [hc']
  cases c
  cases c'
  simp_all

/-- A candle is accepted exactly from finite numbers, which are its values. -/
theorem validateDecimals_eq_ok {symbol : String} {openTime : Instant}
    {open_ high low close volume : Option ℚ} {c : Candle} :
    validateDecimals symbol openTime open_ high low close volume = .ok c ↔
      c.symbol = symbol ∧ c.openTime = openTime ∧ open_ = some c.open_ ∧ high = some c.high ∧
        low = some c.low ∧ close = some c.close ∧ volume = some c.volume := by
  constructor
  · intro h
    unfold validateDecimals at h
    split at h
    · obtain ⟨hsymbol, htime, rfl, rfl, rfl, rfl, rfl⟩ := validate_ok h
      exact ⟨hsymbol, htime, rfl, rfl, rfl, rfl, rfl⟩
    · cases h
  · rintro ⟨rfl, rfl, rfl, rfl, rfl, rfl, rfl⟩
    exact validate_self c

/-- A refused candle is a validation error. -/
theorem validateDecimals_raises (symbol : String) (openTime : Instant)
    (open_ high low close volume : Option ℚ) :
    (validateDecimals symbol openTime open_ high low close volume).Raises
      fun e => ∃ errors, e = .validationError "Candle" errors := by
  unfold validateDecimals validate
  split
  · split
    · split
      · exact .ok _
      · exact .error ⟨_, rfl⟩
    · exact .error ⟨_, rfl⟩
  · exact .error ⟨_, rfl⟩

end Candle

/-- The market data a single cycle observed. -/
structure MarketSnapshot where
  symbol : String
  timeframe : String
  candles : List Candle
  nonempty : candles ≠ []
  ascending : (candles.map Candle.openTime).Pairwise (· < ·)
  one_symbol : ∀ c ∈ candles, c.symbol = symbol
  deriving DecidableEq, Repr

namespace MarketSnapshot

/-- `check_ordering`: the candles are sorted, without repetition, and of one symbol. -/
def orderingChecks (symbol : String) (candles : List Candle) : List FieldCheck :=
  [.rule "candles are not in ascending time order"
      ((candles.map Candle.openTime).Pairwise (· ≤ ·)),
    .rule "candles contain duplicate open times" (candles.map Candle.openTime).Nodup,
    .rule "candles do not all belong to the snapshot symbol" (∀ c ∈ candles, c.symbol = symbol)]

/-- Build a snapshot. As for candles, the model validator runs after the field
    constraint and reports its first failure. -/
def validate (symbol timeframe : String) (candles : List Candle) : Except Error MarketSnapshot :=
  if hf : AllHold [.minLengthOne "candles" candles] then
    -- sorted and without duplicates is strictly ascending
    if ho : AllHold (orderingChecks symbol candles) then
      .ok { symbol, timeframe, candles
            nonempty := List.ne_nil_of_length_pos hf.1
            ascending := (ho.1.and ho.2.1).imp fun ⟨hle, hne⟩ => lt_of_le_of_ne hle hne
            one_symbol := ho.2.2.1 }
    else
      .error (.validationError "MarketSnapshot"
        ((failures (orderingChecks symbol candles)).take 1))
  else
    .error (.validationError "MarketSnapshot" (failures [.minLengthOne "candles" candles]))

/-- A snapshot that is accepted has the candles it was given. -/
theorem validate_ok {symbol timeframe : String} {candles : List Candle} {s : MarketSnapshot}
    (h : validate symbol timeframe candles = .ok s) :
    s.symbol = symbol ∧ s.timeframe = timeframe ∧ s.candles = candles := by
  unfold validate at h
  split at h
  next =>
    split at h
    next => cases h; exact ⟨rfl, rfl, rfl⟩
    next => cases h
  next => cases h

/-- Candles that satisfy what the validators check make a snapshot. -/
theorem validate_of_ascending {symbol : String} (timeframe : String) {candles : List Candle}
    (hne : candles ≠ []) (hasc : (candles.map Candle.openTime).Pairwise (· < ·))
    (hsym : ∀ c ∈ candles, c.symbol = symbol) :
    ∃ s, validate symbol timeframe candles = .ok s := by
  have hfield : AllHold [.minLengthOne "candles" candles] :=
    ⟨List.length_pos_iff.mpr hne, trivial⟩
  have hordering : AllHold (orderingChecks symbol candles) :=
    ⟨hasc.imp le_of_lt, hasc.imp ne_of_lt, hsym, trivial⟩
  exact ⟨_, (dif_pos hfield).trans (dif_pos hordering)⟩

/-- A snapshot is what its own candles build. -/
theorem validate_self (s : MarketSnapshot) : validate s.symbol s.timeframe s.candles = .ok s := by
  obtain ⟨s', hs'⟩ := validate_of_ascending s.timeframe s.nonempty s.ascending s.one_symbol
  obtain ⟨hsymbol, htimeframe, hcandles⟩ := validate_ok hs'
  rw [hs']
  cases s
  cases s'
  simp_all

/-- A refused snapshot is a validation error. -/
theorem validate_raises (symbol timeframe : String) (candles : List Candle) :
    (validate symbol timeframe candles).Raises
      fun e => ∃ errors, e = .validationError "MarketSnapshot" errors := by
  unfold validate
  split
  · split
    · exact .ok _
    · exact .error ⟨_, rfl⟩
  · exact .error ⟨_, rfl⟩

/-- The newest candle. -/
def last (s : MarketSnapshot) : Candle := s.candles.getLast s.nonempty

/-- The price everything is marked at. -/
def lastPrice (s : MarketSnapshot) : ℚ := s.last.close

/-- The bar the snapshot ends with. -/
def asOf (s : MarketSnapshot) : Instant := s.last.openTime

/-- The last candle is one of the candles. -/
theorem last_mem (s : MarketSnapshot) : s.last ∈ s.candles := List.getLast_mem s.nonempty

/-- The last price is positive. -/
theorem lastPrice_pos (s : MarketSnapshot) : 0 < s.lastPrice := s.last.close_pos

end MarketSnapshot

end TradingBot
