import TradingBot.Exchange.CcxtSandbox

/-!
# Unusable market data

The gateway guards the call of the client and an empty answer. What the conversion of the rows
and the validators raise passes through as it is, so market data is reported as unusable exactly
when there is none, and is a snapshot exactly when all of it is usable.
-/

namespace TradingBot

/-- The values of an OHLCV row. -/
structure OhlcvValues where
  openTime : Instant
  open_ : ℚ
  high : ℚ
  low : ℚ
  close : ℚ
  volume : ℚ

/-- The prices are positive and in order. -/
structure OhlcvValues.InBounds (v : OhlcvValues) : Prop where
  low_pos : 0 < v.low
  open_bounds : v.low ≤ v.open_ ∧ v.open_ ≤ v.high
  close_bounds : v.low ≤ v.close ∧ v.close ≤ v.high
  volume_nonneg : 0 ≤ v.volume

/-- The values that a candle has. -/
def Candle.values (c : Candle) : OhlcvValues :=
  ⟨c.openTime, c.open_, c.high, c.low, c.close, c.volume⟩

/-- The values of a candle are in bounds, as the candle carries it. -/
theorem Candle.values_inBounds (c : Candle) : c.values.InBounds :=
  ⟨c.low_pos, c.open_bounds, c.close_bounds, c.volume_nonneg⟩

namespace CcxtSandboxExchange

/-- A row starts with six numbers, a moment and the decimals of a candle. -/
def Reads (row : List OhlcvField) (v : OhlcvValues) : Prop :=
  ∃ timestamp open_ high low close volume rest,
    row = timestamp :: open_ :: high :: low :: close :: volume :: rest ∧
    openTime timestamp = .ok v.openTime ∧ decimal open_ = .ok (some v.open_) ∧
    decimal high = .ok (some v.high) ∧ decimal low = .ok (some v.low) ∧
    decimal close = .ok (some v.close) ∧ decimal volume = .ok (some v.volume)

variable {symbol timeframe : String} {row : List OhlcvField} {rows : List (List OhlcvField)}

/-! ## Rows -/

/-- A row becomes a candle with its values. -/
theorem toCandle_eq_ok {c : Candle} :
    toCandle symbol row = .ok c ↔ Reads row c.values ∧ c.symbol = symbol := by
  constructor
  · intro h
    unfold toCandle at h
    split at h
    -- the six values are read one after another, and then validated
    · obtain ⟨time, htime, h⟩ := Except.bind_eq_ok.mp h
      obtain ⟨_, hopen, h⟩ := Except.bind_eq_ok.mp h
      obtain ⟨_, hhigh, h⟩ := Except.bind_eq_ok.mp h
      obtain ⟨_, hlow, h⟩ := Except.bind_eq_ok.mp h
      obtain ⟨_, hclose, h⟩ := Except.bind_eq_ok.mp h
      obtain ⟨_, hvolume, h⟩ := Except.bind_eq_ok.mp h
      obtain ⟨hsymbol, rfl, rfl, rfl, rfl, rfl, rfl⟩ := Candle.validateDecimals_eq_ok.mp h
      exact ⟨⟨_, _, _, _, _, _, _, rfl, htime, hopen, hhigh, hlow, hclose, hvolume⟩, hsymbol⟩
    · cases h
  · rintro ⟨⟨_, _, _, _, _, _, _, rfl, htime, hopen, hhigh, hlow, hclose, hvolume⟩, hsymbol⟩
    have hcandle := Candle.validateDecimals_eq_ok.mpr
      ⟨hsymbol, (rfl : c.openTime = c.values.openTime), rfl, rfl, rfl, rfl, rfl⟩
    simp only [toCandle, htime, hopen, hhigh, hlow, hclose, hvolume, bind, Except.bind]
    exact hcandle

/-- The exception is not the one that reports unusable data of the venue. -/
def Unreported (e : Error) : Prop := ∀ message, e ≠ .exchangeError message

/-- A timestamp out of range is not reported as unusable data. -/
theorem fromTimestamp_raises (x : ℚ) : (fromTimestamp x).Raises Unreported := by
  unfold fromTimestamp
  dsimp only
  split
  · exact .error nofun
  · split
    · exact .error nofun
    · split
      · exact .ok _
      · exact .error nofun

/-- Neither is an opening time that is not a number. -/
theorem openTime_raises (field : OhlcvField) : (openTime field).Raises Unreported := by
  cases field with
  | null | infinity | nan => exact .error nofun
  | int n =>
    unfold openTime
    dsimp only
    split
    · exact fromTimestamp_raises _
    · exact .error nofun
  | float x => exact fromTimestamp_raises _

/-- Neither is a price that is not a number. -/
theorem decimal_raises (field : OhlcvField) : (decimal field).Raises Unreported := by
  cases field with
  | null => exact .error nofun
  | int n =>
    unfold decimal
    dsimp only
    split
    · exact .ok _
    · exact .error nofun
  | float x | infinity | nan => exact .ok _

/-- A validation error is not the exception that reports unusable data. -/
private theorem unreported_validationError {model : String} {e : Error}
    (h : ∃ errors, e = .validationError model errors) : Unreported e := by
  obtain ⟨errors, rfl⟩ := h
  exact nofun

/-- What the conversion of a row raises is not reported. -/
theorem toCandle_raises (symbol : String) (row : List OhlcvField) :
    (toCandle symbol row).Raises Unreported := by
  unfold toCandle
  split
  · -- the fields are converted in order, and then the candle is validated
    refine .bind (openTime_raises _) fun time => .bind (decimal_raises _) fun open_ => ?_
    refine .bind (decimal_raises _) fun high => .bind (decimal_raises _) fun low => ?_
    refine .bind (decimal_raises _) fun close => .bind (decimal_raises _) fun volume => ?_
    exact (Candle.validateDecimals_raises symbol time open_ high low close volume).mono
      fun e => unreported_validationError
  · exact .error nofun

/-! ## Answers -/

/-- The candles of a snapshot have the values of the rows, one for each. -/
def OfRows (rows : List (List OhlcvField)) (s : MarketSnapshot) : Prop :=
  List.Forall₂ (fun row c => Reads row c.values) rows s.candles

/-- Every row starts with the values of a candle, and the moments ascend. -/
def UsableRows (rows : List (List OhlcvField)) : Prop :=
  ∃ values, List.Forall₂ (fun row v => Reads row v ∧ v.InBounds) rows values ∧
    (values.map OhlcvValues.openTime).Pairwise (· < ·)

variable {fetchOhlcv : String → String → ℕ → Except ClientError (List (List OhlcvField))}
  {limit : ℕ}

/-- Rows of a snapshot are usable. -/
theorem OfRows.usable {s : MarketSnapshot} (h : OfRows rows s) : UsableRows rows := by
  refine ⟨s.candles.map Candle.values, ?_, ?_⟩
  · exact List.forall₂_map_right_iff.mpr (h.imp fun _ c hc => ⟨hc, c.values_inBounds⟩)
  · rw [List.map_map]
    exact s.ascending

/-- Values in bounds are those of some candles of a symbol. -/
private theorem exists_candles {values : List OhlcvValues} (symbol : String)
    (h : List.Forall₂ (fun row v => Reads row v ∧ v.InBounds) rows values) :
    ∃ candles : List Candle, candles.map Candle.values = values ∧
      ∀ c ∈ candles, c.symbol = symbol := by
  induction h with
  | nil => exact ⟨[], rfl, nofun⟩
  | @cons _ v _ _ hv _ ih =>
    obtain ⟨candles, rfl, hsymbols⟩ := ih
    obtain ⟨hlow, hopen, hclose, hvolume⟩ := hv.2
    obtain ⟨c, hc⟩ := Candle.validate_of_bounds symbol v.openTime hlow hvolume hopen hclose
    obtain ⟨hsymbol, htime, hopen, hhigh, hlow, hclose, hvolume⟩ := Candle.validate_ok hc
    refine ⟨c :: candles, ?_, List.forall_mem_cons.mpr ⟨hsymbol, hsymbols⟩⟩
    rw [List.map_cons, Candle.values, htime, hopen, hhigh, hlow, hclose, hvolume]

/-- Usable rows make a snapshot. -/
theorem UsableRows.exists_ofRows (h : UsableRows rows) (hne : rows ≠ [])
    (symbol timeframe : String) :
    ∃ s, s.symbol = symbol ∧ s.timeframe = timeframe ∧ OfRows rows s := by
  obtain ⟨values, hreads, hascending⟩ := h
  obtain ⟨candles, rfl, hsymbols⟩ := exists_candles symbol hreads
  rw [List.map_map] at hascending
  -- the bounds were used up in building the candles
  have hrows := (List.forall₂_map_right_iff.mp hreads).imp fun _ _ hc => hc.1
  have hcandles : candles ≠ [] := by
    rintro rfl
    exact hne (List.forall₂_nil_right_iff.mp hrows)
  exact ⟨⟨symbol, timeframe, candles, hcandles, hascending, hsymbols⟩, rfl, rfl, hrows⟩

/-- A snapshot is returned for rows that its candles are made of. -/
theorem fetchSnapshot_eq_ok {s : MarketSnapshot}
    (hanswer : fetchOhlcv symbol timeframe limit = .ok rows) (hne : rows ≠ []) :
    fetchSnapshot fetchOhlcv symbol timeframe limit = .ok s ↔
      s.symbol = symbol ∧ s.timeframe = timeframe ∧ OfRows rows s := by
  obtain ⟨row, rest, rfl⟩ := List.exists_cons_of_ne_nil hne
  unfold fetchSnapshot
  rw [hanswer]
  constructor
  · intro h
    obtain ⟨candles, hcandles, hvalid⟩ := Except.bind_eq_ok.mp h
    obtain ⟨hsymbol, htimeframe, rfl⟩ := MarketSnapshot.validate_ok hvalid
    refine ⟨hsymbol, htimeframe, (Except.mapM_eq_ok.mp hcandles).imp fun _ c hc => ?_⟩
    exact (toCandle_eq_ok.mp hc).1
  · rintro ⟨rfl, rfl, hrows⟩
    have hsymbols := (List.forall₂_and_left _ _).mpr ⟨s.one_symbol, hrows.flip⟩
    refine Except.bind_eq_ok.mpr ⟨s.candles, Except.mapM_eq_ok.mpr ?_, s.validate_self⟩
    exact hsymbols.flip.imp fun _ c hc => toCandle_eq_ok.mpr ⟨hc.2, hc.1⟩

/-- What the conversion of an answer with rows raises is not reported. -/
theorem fetchSnapshot_raises (hanswer : fetchOhlcv symbol timeframe limit = .ok rows)
    (hne : rows ≠ []) :
    (fetchSnapshot fetchOhlcv symbol timeframe limit).Raises Unreported := by
  obtain ⟨row, rest, rfl⟩ := List.exists_cons_of_ne_nil hne
  unfold fetchSnapshot
  rw [hanswer]
  refine .bind (.mapM (toCandle_raises symbol) (row :: rest)) fun candles => ?_
  exact (MarketSnapshot.validate_raises symbol timeframe candles).mono
    fun e => unreported_validationError

/-- A snapshot with one candle for each row, in ascending order, with prices in order. -/
structure SoundSnapshot (rows : List (List OhlcvField)) (s : MarketSnapshot) : Prop where
  one_each : OfRows rows s
  ascending : (s.candles.map Candle.openTime).Pairwise (· < ·)
  positive : ∀ c ∈ s.candles, 0 < c.open_ ∧ 0 < c.high ∧ 0 < c.low ∧ 0 < c.close
  bounds : ∀ c ∈ s.candles,
    c.low ≤ c.open_ ∧ c.open_ ≤ c.high ∧ c.low ≤ c.close ∧ c.close ≤ c.high

/-- A snapshot of the rows is sound: the rest is what every snapshot carries. -/
theorem OfRows.sound {s : MarketSnapshot} (h : OfRows rows s) : SoundSnapshot rows s where
  one_each := h
  ascending := s.ascending
  positive c _ := ⟨c.open_pos, c.high_pos, c.low_pos, c.close_pos⟩
  bounds c _ := ⟨c.open_bounds.1, c.open_bounds.2, c.close_bounds⟩

/-- The client raised, or it answered with usable rows, or with none. -/
def UsableAnswer : Except ClientError (List (List OhlcvField)) → Prop
  | .error _ => True
  | .ok rows => rows = [] ∨ UsableRows rows

/-- A sound snapshot is returned or the failure is reported as one of the venue exactly when
    the answer is usable. -/
theorem fetchSnapshot_reports_iff
    (fetchOhlcv : String → String → ℕ → Except ClientError (List (List OhlcvField)))
    (symbol timeframe : String) (limit : ℕ) :
    ((∃ rows s, fetchOhlcv symbol timeframe limit = .ok rows ∧
        fetchSnapshot fetchOhlcv symbol timeframe limit = .ok s ∧ SoundSnapshot rows s) ∨
      ∃ message, fetchSnapshot fetchOhlcv symbol timeframe limit =
        .error (.exchangeError message)) ↔
    UsableAnswer (fetchOhlcv symbol timeframe limit) := by
  cases hanswer : fetchOhlcv symbol timeframe limit with
  | error error =>
    refine iff_of_true (.inr ⟨"fetch_ohlcv failed for " ++ symbol ++ " " ++ timeframe, ?_⟩) trivial
    rw [fetchSnapshot, hanswer]
  | ok rows =>
    -- an empty answer is reported, like a failed request
    by_cases hempty : rows = []
    · subst hempty
      refine iff_of_true (.inr
        ⟨"the venue returned no candles for " ++ symbol ++ " " ++ timeframe, ?_⟩) (.inl rfl)
      rw [fetchSnapshot, hanswer]
    · constructor
      · rintro (⟨_, s, ⟨⟩, -, hsound⟩ | ⟨message, herror⟩)
        · exact .inr hsound.one_each.usable
        · -- with rows in the answer nothing is reported
          exact absurd rfl (fetchSnapshot_raises hanswer hempty _ herror message)
      · rintro (hnone | husable)
        · exact absurd hnone hempty
        · obtain ⟨s, hsymbol, htimeframe, hrows⟩ :=
            husable.exists_ofRows hempty symbol timeframe
          have hfetched := (fetchSnapshot_eq_ok hanswer hempty).mpr ⟨hsymbol, htimeframe, hrows⟩
          exact .inl ⟨rows, s, rfl, hfetched, hrows.sound⟩

/-- A candle whose volume the venue left out. -/
def withoutVolume : List (List OhlcvField) :=
  [[.int 1767268800000, .float 100, .float 101, .float 99, .float 100, .null]]

/-- A row without a volume raises the exception of the decimal, not the one of the exchange. -/
theorem withoutVolume_not_reported :
    fetchSnapshot (fun _ _ _ => .ok withoutVolume) "BTC/USDT" "15m" 1 =
      .error (.external "InvalidOperation" "[<class 'decimal.ConversionSyntax'>]") := by
  decide +kernel

end CcxtSandboxExchange

end TradingBot
