import TradingBot.Errors
import TradingBot.ForMathlib.Except
import Mathlib.Tactic.Linarith

/-!
# Timeframes

Exchange timeframes such as `15m`, and the bars they cut the time line into. Durations
and moments are checked against the ranges of `timedelta` and `datetime`; leaving them
is an `OverflowError`.
-/

namespace TradingBot

/-! ## The ranges of `timedelta` and `datetime` -/

/-- Microseconds in a day. -/
def dayMicros : ℤ := 86400 * 1000000

/-- A `timedelta` holds at most 999999999 days either way. -/
def timedelta (micros : ℤ) : Except Error Duration :=
  if -999999999 ≤ micros / dayMicros ∧ micros / dayMicros ≤ 999999999 then .ok micros
  else .error (.overflowError "days must have magnitude <= 999999999")

/-- The first moment of year 1. -/
def minDatetime : Instant := -62135596800 * 1000000

/-- The last moment of year 9999. -/
def maxDatetime : Instant := 253402300800 * 1000000 - 1

/-- A `datetime` lies in the years 1 to 9999. -/
def datetime (micros : ℤ) : Except Error Instant :=
  if minDatetime ≤ micros ∧ micros ≤ maxDatetime then .ok micros
  else .error (.overflowError "date value out of range")

/-- A `timedelta` keeps its microseconds. -/
theorem timedelta_ok {micros d : ℤ} (h : timedelta micros = .ok d) : d = micros := by
  unfold timedelta at h
  split at h
  · cases h; rfl
  · cases h

/-- The first moment is before the epoch. -/
theorem minDatetime_neg : minDatetime < 0 := by decide

/-- The last moment is after the epoch. -/
theorem maxDatetime_pos : 0 < maxDatetime := by decide

/-- A `timedelta` holds a hundred times the time between any two moments. -/
theorem timedelta_of_le {micros : ℤ} (hlow : 100 * (minDatetime - maxDatetime) ≤ micros)
    (hhigh : micros ≤ 100 * (maxDatetime - minDatetime)) : timedelta micros = .ok micros := by
  have hdays : -999999999 ≤ micros / dayMicros ∧ micros / dayMicros ≤ 999999999 := by
    constructor
    · exact (Int.le_ediv_iff_mul_le (by decide)).mpr (le_trans (by decide) hlow)
    · exact Int.lt_add_one_iff.mp
        (Int.ediv_lt_of_lt_mul (by decide) (hhigh.trans_lt (by decide)))
  exact if_pos hdays

/-- The moments a `datetime` can hold. -/
def InDatetimeRange (micros : ℤ) : Prop := minDatetime ≤ micros ∧ micros ≤ maxDatetime

instance (micros : ℤ) : Decidable (InDatetimeRange micros) := inferInstanceAs (Decidable (_ ∧ _))

/-- A moment is built exactly where it is in range. -/
theorem datetime_eq_ok {micros t : ℤ} :
    datetime micros = .ok t ↔ t = micros ∧ InDatetimeRange micros := by
  unfold datetime InDatetimeRange
  split
  next h => simp [h, eq_comm]
  next h => simp [h]

/-! ## Parsing -/

/-- The code points of the zeros of the Unicode decimal digits (category `Nd`, Unicode 15.0).
    Each is followed by the nine other digits of its script. -/
def zeroDigits : List ℕ :=
  [0x30, 0x660, 0x6f0, 0x7c0, 0x966, 0x9e6, 0xa66, 0xae6, 0xb66, 0xbe6, 0xc66, 0xce6, 0xd66,
    0xde6, 0xe50, 0xed0, 0xf20, 0x1040, 0x1090, 0x17e0, 0x1810, 0x1946, 0x19d0, 0x1a80, 0x1a90,
    0x1b50, 0x1bb0, 0x1c40, 0x1c50, 0xa620, 0xa8d0, 0xa900, 0xa9d0, 0xa9f0, 0xaa50, 0xabf0,
    0xff10, 0x104a0, 0x10d30, 0x11066, 0x110f0, 0x11136, 0x111d0, 0x112f0, 0x11450, 0x114d0,
    0x11650, 0x116c0, 0x11730, 0x118e0, 0x11950, 0x11c50, 0x11d50, 0x11da0, 0x11f50, 0x16a60,
    0x16ac0, 0x16b50, 0x1d7ce, 0x1d7d8, 0x1d7e2, 0x1d7ec, 0x1d7f6, 0x1e140, 0x1e2f0, 0x1e4f0,
    0x1e950, 0x1fbf0]

/-- The value of a decimal digit, as `\d` matches it and `int` reads it. -/
def digitValue (c : Char) : Option ℕ :=
  (zeroDigits.find? fun z => z ≤ c.toNat ∧ c.toNat < z + 10).map (c.toNat - ·)

/-- The unit of a timeframe, in microseconds: `_UNITS`. -/
def unitMicros : Char → Option ℤ
  | 'm' => some (60 * 1000000)
  | 'h' => some (3600 * 1000000)
  | 'd' => some dayMicros
  | 'w' => some (7 * dayMicros)
  | _ => none

/-- `_TIMEFRAME.match`: digits, one unit, and the end of the string, which `$` also finds
    before a final newline. Gives the digit values and the unit. -/
def matchTimeframe (timeframe : String) : Option (List ℕ × ℤ) := do
  let chars := timeframe.toList
  let body := if chars.getLast? = some '\n' then chars.dropLast else chars
  let unit ← body.getLast? >>= unitMicros
  let digits ← body.dropLast.mapM digitValue
  if digits = [] then none else some (digits, unit)

/-- `int` on a string of decimal digits; more than 4300 of them are refused. -/
def intOfDigits (digits : List ℕ) : Except Error ℕ :=
  if digits.length ≤ 4300 then .ok (digits.foldl (fun n d => 10 * n + d) 0)
  else .error (.valueError "Exceeds the limit (4300 digits) for integer string conversion")

/-- Translate an exchange timeframe such as `15m` into a duration. -/
def parseTimeframe (timeframe : String) : Except Error Duration :=
  match matchTimeframe timeframe with
  | none => .error (.configurationError "unsupported timeframe: " (some timeframe))
  | some (digits, unit) => do
    let amount ← intOfDigits digits
    if amount < 1 then
      throw (.configurationError "timeframe amount must be positive: " (some timeframe))
    timedelta (amount * unit)

example : parseTimeframe "15m" = .ok (15 * 60 * 1000000) := by decide

/-- The units are positive. -/
private theorem unitMicros_pos {c : Char} {unit : ℤ} (h : unitMicros c = some unit) :
    0 < unit := by
  unfold unitMicros at h
  split at h <;> cases h <;> decide

/-- So is the unit of a timeframe that matches. -/
private theorem matchTimeframe_unit_pos {timeframe : String} {digits : List ℕ} {unit : ℤ}
    (h : matchTimeframe timeframe = some (digits, unit)) : 0 < unit := by
  simp only [matchTimeframe, bind, Option.bind_eq_some_iff] at h
  obtain ⟨u, ⟨c, -, hu⟩, ds, -, hlast⟩ := h
  split at hlast
  · cases hlast
  · simp only [Option.some.injEq, Prod.mk.injEq] at hlast
    exact hlast.2 ▸ unitMicros_pos hu

/-- A parsed timeframe is a positive duration. -/
theorem parseTimeframe_pos {timeframe : String} {step : Duration}
    (h : parseTimeframe timeframe = .ok step) : 0 < step := by
  unfold parseTimeframe at h
  cases hm : matchTimeframe timeframe with
  | none => simp [hm] at h
  | some parsed =>
    obtain ⟨digits, unit⟩ := parsed
    simp only [hm, bind, Except.bind] at h
    cases ha : intOfDigits digits with
    | error e => simp [ha] at h
    | ok amount =>
      simp only [ha] at h
      split at h
      next => cases h
      next hamount =>
        rw [timedelta_ok h]
        exact Int.mul_pos (by omega) (matchTimeframe_unit_pos hm)

/-! ## Bars -/

/-- Round a moment down to the start of its bar. Bars are aligned on the Unix epoch. -/
def floorToTimeframe (moment : Instant) (timeframe : String) : Except Error Instant := do
  let step ← parseTimeframe timeframe
  -- whole bars since the epoch, rounding down before it as well
  let elapsed ← timedelta (step * (moment / step))
  datetime elapsed

/-- Whether the newest candle is too old to act on. -/
def isStale (asOf : Instant) (timeframe : String) (now : Instant) (maxAgeFactor : ℤ) :
    Except Error Bool := do
  let step ← parseTimeframe timeframe
  -- measured from the open of the newest bar, since that is its time
  let maxAge ← timedelta (step * maxAgeFactor)
  return now - asOf > maxAge

/-- A bar starts a whole number of steps from the epoch. -/
theorem floorToTimeframe_ok {moment t : Instant} {timeframe : String} {step : Duration}
    (hstep : parseTimeframe timeframe = .ok step)
    (h : floorToTimeframe moment timeframe = .ok t) : step ∣ t := by
  unfold floorToTimeframe at h
  simp only [hstep, bind, Except.bind] at h
  cases helapsed : timedelta (step * (moment / step)) with
  | error e => simp [helapsed] at h
  | ok elapsed =>
    simp only [helapsed] at h
    rw [(datetime_eq_ok.mp h).1, timedelta_ok helapsed]
    exact Int.dvd_mul_right _ _

/-- A moment is rounded down when the start of its bar is a moment. -/
theorem floorToTimeframe_eq_ok {moment t : Instant} {timeframe : String} {step : Duration}
    (hstep : parseTimeframe timeframe = .ok step) (hmoment : InDatetimeRange moment) :
    floorToTimeframe moment timeframe = .ok t ↔
      t = step * (moment / step) ∧ minDatetime ≤ t := by
  have hle : step * (moment / step) ≤ moment := Int.mul_ediv_self_le (parseTimeframe_pos hstep).ne'
  unfold floorToTimeframe
  simp only [hstep, bind, Except.bind]
  constructor
  · intro h
    obtain ⟨elapsed, helapsed, h⟩ := Except.bind_eq_ok.mp h
    obtain ⟨rfl, hrange⟩ := datetime_eq_ok.mp h
    exact ⟨timedelta_ok helapsed, hrange.1⟩
  · rintro ⟨rfl, hmin⟩
    -- the floor is not after the moment, so it can only be too early
    have hmax := hle.trans hmoment.2
    have helapsed : timedelta (step * (moment / step)) = .ok (step * (moment / step)) :=
      timedelta_of_le (by linarith [minDatetime_neg, maxDatetime_pos])
        (by linarith [minDatetime_neg, maxDatetime_pos])
    simp only [helapsed]
    exact datetime_eq_ok.mpr ⟨rfl, hmin, hmax⟩

end TradingBot
