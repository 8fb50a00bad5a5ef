import TradingBot.ForMathlib.Separator
import TradingBot.Spec.OneBar
import TradingBot.Spec.SymbolIsolation
import TradingBot.Spec.TimeframeGrammar

/-!
# What an order id identifies

A client order id joins the stripped symbol, the timeframe, the second at which the bar opens and
the side. No field but the second can contain the dash between them, so the id determines all
four. The symbol is determined up to what stripping it removes, and the moment up to the second.
-/

namespace TradingBot

/-- A timeframe that parses is digits and the letter of a unit. -/
theorem parseTimeframe_reads {text : String} {step : Duration}
    (h : parseTimeframe text = .ok step) : ∃ digits unit, ReadsTimeframe text digits unit := by
  by_contra hreads
  push Not at hreads
  cases (parseTimeframe_of_not_reads hreads).symm.trans h

/-- The digits of a natural number are read back. -/
private theorem natRepr_injective {m n : ℕ} (h : m.repr = n.repr) : m = n := by
  have hread := congrArg (fun text => Nat.ofDigitChars 10 text.toList 0) h
  simpa using hread

/-- The digits of a number contain no dash. -/
private theorem dash_notMem_natRepr (n : ℕ) : '-' ∉ n.repr.toList := by
  intro hmem
  rw [Nat.toList_repr] at hmem
  exact absurd (Nat.isDigit_of_mem_toDigits (by decide) le_rfl hmem) (by decide)

/-- So are those of an integer, with their sign: no digit is a dash. -/
private theorem intRepr_injective {a b : ℤ} (h : a.repr = b.repr) : a = b := by
  rw [Int.repr_eq_if, Int.repr_eq_if] at h
  split at h <;> split at h
  · have hsame := natRepr_injective h
    omega
  -- where the signs differ, a dash would be among the digits of the other number
  · exact absurd (by simp [h]) (dash_notMem_natRepr a.toNat)
  · exact absurd (by simp [← h]) (dash_notMem_natRepr b.toNat)
  · have hsame := natRepr_injective ((String.append_right_inj _).mp h)
    omega

/-- Neither do digits of any script: a dash has no digit value. -/
private theorem dash_notMem_of_mapM {chars : List Char} {digits : List ℕ}
    (h : chars.mapM digitValue = some digits) : '-' ∉ chars := by
  induction chars generalizing digits with
  | nil => exact List.not_mem_nil
  | cons c chars ih =>
    rw [List.mapM_cons] at h
    obtain ⟨d, hd, h⟩ := Option.bind_eq_some_iff.mp h
    obtain ⟨ds, hds, -⟩ := Option.bind_eq_some_iff.mp h
    rintro (_ | ⟨_, hdash⟩)
    · cases hd
    · exact ih hds hdash

/-- A supported timeframe has no dash. -/
theorem dash_notMem_timeframe {text : String} {step : Duration}
    (h : parseTimeframe text = .ok step) : '-' ∉ text.toList := by
  obtain ⟨digits, unit, chars, letter, ending, htext, hending, hdigits, hne, hunit⟩ :=
    parseTimeframe_reads h
  have hletter : letter ≠ '-' := by
    rintro rfl
    simp [unitLengths] at hunit
  have hend : '-' ∉ ending := by
    obtain rfl | rfl := hending <;> decide
  rw [htext, List.mem_append, List.mem_cons]
  rintro (hdash | hdash | hdash)
  · exact dash_notMem_of_mapM hdigits hdash
  · exact hletter hdash.symm
  · exact hend hdash

/-- The name of a side contains no dash. -/
theorem OrderSide.dash_notMem_value (side : OrderSide) : '-' ∉ side.value.toList := by
  cases side <;> decide

/-- Two snapshots whose cycles share an id: the bars open in the same second, and the symbols
    are the same when they are stripped. -/
structure SameBar (s t : MarketSnapshot) : Prop where
  symbol : stripSymbol s.symbol = stripSymbol t.symbol
  timeframe : s.timeframe = t.timeframe
  second : epochSeconds s.asOf = epochSeconds t.asOf

/-- An order id is its four parts with dashes between them. -/
theorem orderId_toList (s : MarketSnapshot) (side : OrderSide) :
    (orderId (buildCycleId s) side).toList =
      (stripSymbol s.symbol).toList ++ '-' :: (s.timeframe.toList ++ '-' ::
        ((toString (epochSeconds s.asOf)).toList ++ '-' :: side.value.toList)) := by
  have hdash : "-".toList = ['-'] := rfl
  simp only [orderId, buildCycleId, String.toList_append, hdash, List.append_assoc,
    List.cons_append, List.nil_append]

/-- Two order ids are equal exactly where bar and side are the same: neither of the first two
    parts contains a dash, nor does the last one, so that the dashes separate them. -/
theorem orderId_eq_iff {s t : MarketSnapshot} {step step' : Duration}
    (h : parseTimeframe s.timeframe = .ok step) (h' : parseTimeframe t.timeframe = .ok step')
    (side side' : OrderSide) :
    orderId (buildCycleId s) side = orderId (buildCycleId t) side' ↔
      SameBar s t ∧ side = side' := by
  rw [← String.toList_inj, orderId_toList, orderId_toList,
    List.append_cons_inj_left (dash_notMem_stripSymbol _) (dash_notMem_stripSymbol _),
    List.append_cons_inj_left (dash_notMem_timeframe h) (dash_notMem_timeframe h'),
    -- the second may be negative, and is cut off at the dash after it
    List.append_cons_inj_right side.dash_notMem_value side'.dash_notMem_value,
    String.toList_inj, String.toList_inj, String.toList_inj, String.toList_inj]
  constructor
  · rintro ⟨hsymbol, htimeframe, hsecond, hside⟩
    exact ⟨⟨hsymbol, htimeframe, intRepr_injective hsecond⟩, OrderSide.value_injective hside⟩
  · rintro ⟨⟨hsymbol, htimeframe, hsecond⟩, rfl⟩
    exact ⟨hsymbol, htimeframe, congrArg toString hsecond, rfl⟩

/-- A `datetime` without microseconds. -/
def WholeSecond (moment : Instant) : Prop := InDatetimeRange moment ∧ 1000000 ∣ moment

/-- A moment on a whole second is determined by its seconds. -/
theorem WholeSecond.epochSeconds_mul {moment : Instant} (h : WholeSecond moment) :
    epochSeconds moment * 1000000 = moment := by
  obtain ⟨hrange, hdvd⟩ := h
  obtain ⟨seconds, rfl⟩ := exists_eq_mul_left_of_dvd hdvd
  rw [epochSeconds, timestamp_mul seconds hrange, FixedPoint.truncate_intCast]

/-- A client order id identifies the side, the timeframe, the symbol up to what stripping it
    removes, and the second at which the bar opens, which is the moment unless that has
    microseconds. An order of another bar or side neither counts as the order already
    executed nor takes its id. -/
theorem clientOrderId_identifies_bar {s t : MarketSnapshot} {step step' : Duration}
    (h : parseTimeframe s.timeframe = .ok step) (h' : parseTimeframe t.timeframe = .ok step')
    (side side' : OrderSide) :
    (orderId (buildCycleId s) side = orderId (buildCycleId t) side' ↔
      SameBar s t ∧ side = side') ∧
    (WholeSecond s.asOf → WholeSecond t.asOf → SameBar s t → s.asOf = t.asOf) ∧
    (¬(SameBar s t ∧ side = side') → ∀ (db : Database) (other : OrderRecord),
      other.clientOrderId = orderId (buildCycleId t) side' →
      { db with orders := db.orders ++ [other] }.alreadyExecuted (orderId (buildCycleId s) side) =
          db.alreadyExecuted (orderId (buildCycleId s) side) ∧
        ∀ tx : Transaction, (∀ order ∈ tx.order,
            order.clientOrderId = orderId (buildCycleId s) side) →
          tx.duplicatesOrder { db with orders := db.orders ++ [other] } =
            tx.duplicatesOrder db) := by
  refine ⟨orderId_eq_iff h h' side side', fun hs ht hsame => ?_, fun hother db other hid => ?_⟩
  · rw [← hs.epochSeconds_mul, hsame.second, ht.epochSeconds_mul]
  · -- the other order is found under its own id only
    have hne : other.clientOrderId ≠ orderId (buildCycleId s) side := by
      rw [hid]
      exact fun heq => hother ((orderId_eq_iff h h' side side').mp heq.symm)
    have hunknown : { db with orders := db.orders ++ [other] }.alreadyExecuted
        (orderId (buildCycleId s) side) =
          db.alreadyExecuted (orderId (buildCycleId s) side) := by
      simp [Database.alreadyExecuted, hne]
    refine ⟨hunknown, fun tx htx => ?_⟩
    unfold Transaction.duplicatesOrder
    cases horder : tx.order with
    | none => rfl
    | some order =>
      have hlookup := htx order horder
      rw [Option.any_some, Option.any_some, hlookup]
      exact hunknown

/-- The price of the flat snapshot is positive. -/
private theorem flatPrice_pos : (0 : ℚ) < 100 := by decide

/-- The bar of the flat snapshot is at one price. -/
private theorem flatPrice_bounds : (100 : ℚ) ≤ 100 ∧ (100 : ℚ) ≤ 100 := ⟨le_rfl, le_rfl⟩

/-- The volume of the flat snapshot is not negative. -/
private theorem flatVolume_nonneg : (0 : ℚ) ≤ 1 := by decide

/-- A flat candle. -/
def flatCandle (symbol : String) (openTime : Instant) : Candle :=
  ⟨symbol, openTime, 100, 100, 100, 100, 1, flatPrice_pos, flatPrice_pos, flatPrice_pos,
    flatPrice_pos, flatVolume_nonneg, flatPrice_bounds, flatPrice_bounds⟩

/-- A snapshot of one flat candle. -/
def flatSnapshot (symbol timeframe : String) (openTime : Instant) : MarketSnapshot where
  symbol := symbol
  timeframe := timeframe
  candles := [flatCandle symbol openTime]
  nonempty := List.cons_ne_nil _ _
  ascending := List.pairwise_singleton _ _
  one_symbol := List.forall_mem_singleton.mpr rfl

/-- Two bars in a row. -/
theorem clientOrderId_identifies_bar_later :
    orderId (buildCycleId (flatSnapshot "BTC/USDT" "15m" noon)) .buy ≠
      orderId (buildCycleId (flatSnapshot "BTC/USDT" "15m" (noon + 900000000))) .buy := by
  have h : parseTimeframe "15m" = .ok 900000000 := by decide
  rintro hid
  have hsame := (clientOrderId_identifies_bar (s := flatSnapshot "BTC/USDT" "15m" noon)
    (t := flatSnapshot "BTC/USDT" "15m" (noon + 900000000)) h h .buy .buy).1.mp hid
  exact absurd hsame.1.second (by decide +kernel)

/-- The slash is lost, and so are microseconds. -/
theorem slash_lost :
    parseTimeframe "15m" = .ok 900000000 ∧
      orderId (buildCycleId (flatSnapshot "BTC/USDT" "15m" noon)) .buy =
        orderId (buildCycleId (flatSnapshot "BTCUSDT" "15m" (noon + 1))) .buy ∧
      (flatSnapshot "BTC/USDT" "15m" noon).symbol ≠
        (flatSnapshot "BTCUSDT" "15m" (noon + 1)).symbol ∧
      (flatSnapshot "BTC/USDT" "15m" noon).asOf ≠
        (flatSnapshot "BTCUSDT" "15m" (noon + 1)).asOf := by
  decide +kernel

end TradingBot
