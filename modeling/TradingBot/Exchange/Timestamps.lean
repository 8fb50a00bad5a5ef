import TradingBot.Exchange.Timeframes
import TradingBot.Python.Float

/-!
# Timestamps

The moments of `datetime` as floats: seconds since the Unix epoch.
-/

namespace TradingBot

open FixedPoint Python

/-- `moment.timestamp()`. -/
def timestamp (moment : Instant) : ℚ := float (moment / 1000000)

/-- A moment that is a whole second is told exactly. -/
theorem timestamp_mul (seconds : ℤ) (h : InDatetimeRange (seconds * 1000000)) :
    timestamp (seconds * 1000000) = seconds := by
  have hcancel : ((seconds * 1000000 : ℤ) : ℚ) / 1000000 = seconds := by
    push_cast
    exact mul_div_cancel_right₀ _ (by norm_num)
  have hsmall : |seconds| < 2 ^ 53 := by
    simp only [InDatetimeRange, minDatetime, maxDatetime] at h
    rw [abs_lt]
    constructor <;> linarith [h.1, h.2]
  rw [timestamp, hcancel, float_intCast hsmall]

/-! ## From a timestamp -/

/-- The year of a day that is counted from the epoch. -/
def yearOfDay (day : ℤ) : ℤ :=
  -- the calendar repeats every 400 years, here from the 1st of March of year 0
  let day := day + 719468
  let dayOfEra := day % 146097
  let yearOfEra := (dayOfEra - dayOfEra / 1460 + dayOfEra / 36524 - dayOfEra / 146096) / 365
  let dayOfYear := dayOfEra - (365 * yearOfEra + yearOfEra / 4 - yearOfEra / 100)
  let year := 400 * (day / 146097) + yearOfEra
  -- the 1st of January is day 306 of a year that starts in March
  if dayOfYear < 306 then year else year + 1

example : yearOfDay (minDatetime / dayMicros) = 1 ∧ yearOfDay (minDatetime / dayMicros - 1) = 0 ∧
    yearOfDay (maxDatetime / dayMicros) = 9999 := by decide

/-- A year has 365 days or one more. -/
theorem yearOfDay_bounds (day : ℤ) :
    400 * (day / 146097) ≤ yearOfDay day + 1 ∧ yearOfDay day ≤ 400 * (day / 146097) + 2400 := by
  unfold yearOfDay
  dsimp only
  split <;> omega

/-- The microseconds of a timestamp. Those of its fraction are rounded on their own. -/
def timestampMicros (timestamp : ℚ) : ℤ :=
  let whole := truncate timestamp
  whole * 1000000 + roundHalfEven (float ((timestamp - whole) * 1000000))

/-- `datetime.fromtimestamp(timestamp, tz=UTC)`, with the ranges of a 64-bit Linux. -/
def fromTimestamp (timestamp : ℚ) : Except Error Instant :=
  let micros := timestampMicros timestamp
  let seconds := micros / 1000000
  let year := yearOfDay (seconds / 86400)
  if ¬(-2 ^ 63 ≤ seconds ∧ seconds < 2 ^ 63) then
    .error (.overflowError "timestamp out of range for platform time_t")
  else if ¬(-2 ^ 31 ≤ year - 1900 ∧ year - 1900 < 2 ^ 31) then
    .error (.external "OSError" "[Errno 75] Value too large for defined data type")
  else if InDatetimeRange micros then .ok micros
  else .error (.valueError ("year " ++ toString year ++ " is out of range"))

/-- A timestamp gives a moment when its microseconds are in the range of `datetime`. -/
theorem fromTimestamp_eq_ok {x : ℚ} {t : Instant} :
    fromTimestamp x = .ok t ↔ t = timestampMicros x ∧ InDatetimeRange t := by
  unfold fromTimestamp
  dsimp only
  constructor
  · intro h
    split at h
    · cases h
    · split at h
      · cases h
      · split at h
        next hrange =>
          cases h
          exact ⟨rfl, hrange⟩
        next => cases h
  · rintro ⟨rfl, hrange⟩
    -- a moment in range passes both earlier checks of the year
    have hyear := yearOfDay_bounds (timestampMicros x / 1000000 / 86400)
    have hbounds : (-62135596800 * 1000000 : ℤ) ≤ timestampMicros x ∧
        timestampMicros x ≤ (253402300800 * 1000000 - 1 : ℤ) := hrange
    rw [if_neg (not_not.mpr ⟨by omega, by omega⟩), if_neg (not_not.mpr ⟨by omega, by omega⟩),
      if_pos hrange]

end TradingBot
