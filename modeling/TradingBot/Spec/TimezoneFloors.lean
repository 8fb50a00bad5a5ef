import TradingBot.Exchange.Timezones
import Mathlib.Order.Bounds.Basic

/-!
# Bar starts across timezones

The bar of a moment starts at the last whole number of steps from the Unix epoch. Rounding
down a `datetime` finds that start exactly when the offsets of the timezone allow it: at the bar
start the offset differs from that at the epoch by a whole number of steps, and between the bar
start and the moment it does not change by so much that the clock leaves the bar. With one offset
it is always so, with summer time it is not.

## Key results

- `exists_floor_iff`: the bar start is found exactly when the offsets allow it
- `aligned_fixed`: with one offset they always do
- `floor_starts_bar_iff`: two moments, in any two timezones
-/

namespace TradingBot

/-- The last whole number of steps from the epoch that is not after a moment. -/
def StartsBar (step : Duration) (start moment : Instant) : Prop :=
  IsGreatest {t | step ∣ t ∧ t ≤ moment} start

section StartsBar

variable {step : Duration} {start start' moment moment' : Instant}

/-- A bar starts at a multiple of its length, and covers its moments up to the next one. -/
theorem startsBar_iff (hpos : 0 < step) :
    StartsBar step start moment ↔ step ∣ start ∧ start ≤ moment ∧ moment < start + step := by
  constructor
  · rintro ⟨⟨hdvd, hle⟩, hgreatest⟩
    refine ⟨hdvd, hle, not_le.mp fun hnext => ?_⟩
    -- the next multiple would be greater
    have hlast : start + step ≤ start := hgreatest ⟨dvd_add_self_right.mpr hdvd, hnext⟩
    linarith
  · rintro ⟨hdvd, hle, hlt⟩
    refine ⟨⟨hdvd, hle⟩, fun t ⟨ht, htle⟩ => not_lt.mp fun hafter => ?_⟩
    have hstep : step ≤ t - start := Int.le_of_dvd (sub_pos.mpr hafter) (dvd_sub ht hdvd)
    linarith

/-- The start of the bar of a moment. -/
def barStart (step : Duration) (moment : Instant) : Instant := step * (moment / step)

/-- Every moment has a bar. -/
theorem startsBar_barStart (hpos : 0 < step) (moment : Instant) :
    StartsBar step (barStart step moment) moment :=
  (startsBar_iff hpos).mpr ⟨dvd_mul_right _ _, Int.mul_ediv_self_le hpos.ne',
    Int.lt_mul_ediv_self_add hpos⟩

/-- A later moment has no earlier bar. -/
theorem StartsBar.mono (h : StartsBar step start moment) (h' : StartsBar step start' moment')
    (hle : moment ≤ moment') : start ≤ start' :=
  h'.2 ⟨h.1.1, h.1.2.trans hle⟩

end StartsBar

/-- The offsets of a moment, one for each reading of it that is not folded. A reading that is
    skipped where the clock is put forward is one of the moment that it stands for. -/
def TimeZone.offsetsAt (zone : TimeZone) (moment : Instant) : Set ℤ :=
  {offset | zone.utcoffset (moment + offset) false = offset}

namespace AwareDatetime

variable {zone zone₁ zone₂ : TimeZone} {step : Duration} {timeframe : String}

/-- `moment.utcoffset()`. -/
def utcoffset (moment : AwareDatetime zone) : ℤ := zone.utcoffset moment.wall moment.fold

/-- The clock on the wall shows the timestamp and the offset. -/
theorem wall_eq (moment : AwareDatetime zone) :
    moment.wall = moment.timestamp + moment.utcoffset := (sub_add_cancel _ _).symm

/-- An offset at the start of the bar of the moment that lets it be found. -/
structure OffsetFits (moment : AwareDatetime zone) (step : Duration) (offset : ℤ) : Prop where
  atStart : offset ∈ zone.offsetsAt (barStart step moment.timestamp)
  /-- From the epoch, whose reading is its offset, to the bar start the clock was moved by whole
      steps. -/
  sinceEpoch : step ∣ offset - zone.epoch
  /-- From the bar start to the moment it was not moved out of the bar. -/
  sinceStart : 0 ≤ moment.timestamp - barStart step moment.timestamp + (moment.utcoffset - offset) ∧
    moment.timestamp - barStart step moment.timestamp + (moment.utcoffset - offset) < step
  inRange : minDatetime ≤ barStart step moment.timestamp + offset

/-- The timezone has such an offset. -/
def Aligned (moment : AwareDatetime zone) (step : Duration) : Prop :=
  ∃ offset, moment.OffsetFits step offset

/-- A `datetime` is rounded down to the start of its bar exactly when the offsets at the epoch, at
    the bar start and at the moment allow it. -/
theorem exists_floor_iff (hstep : parseTimeframe timeframe = .ok step)
    (moment : AwareDatetime zone) :
    (∃ start, moment.floorToTimeframe timeframe = .ok start ∧
        StartsBar step start.timestamp moment.timestamp) ↔ moment.Aligned step := by
  have hpos := parseTimeframe_pos hstep
  have hbar := startsBar_barStart hpos moment.timestamp
  obtain ⟨hdvd, hbarLe, hbarLt⟩ := (startsBar_iff hpos).mp hbar
  have hmoment := moment.wall_eq
  constructor
  · rintro ⟨start, hfloor, hstarts⟩
    obtain ⟨hwall, hfold⟩ := (floorToTimeframe_eq_ok hstep).mp hfloor
    have hle := Int.mul_ediv_self_le (x := moment.wall - zone.epoch) hpos.ne'
    have hlt := Int.lt_mul_ediv_self_add (x := moment.wall - zone.epoch) hpos
    -- the reading that is found is one of the bar start, at the offset in between
    have hsame : start.timestamp = barStart step moment.timestamp := hstarts.unique hbar
    have hreading := start.wall_eq
    rw [hsame] at hreading
    refine ⟨start.utcoffset, ?_, ?_, ⟨by linarith, by linarith⟩, hreading ▸ start.inRange.1⟩
    · show zone.utcoffset (_ + start.utcoffset) false = _
      rw [← hreading, utcoffset, hfold]
    · have hshift : start.utcoffset - zone.epoch =
          step * ((moment.wall - zone.epoch) / step) - barStart step moment.timestamp := by
        linarith
      rw [hshift]
      exact dvd_sub (dvd_mul_right _ _) hdvd
  · rintro ⟨offset, hfits⟩
    obtain ⟨hlow, hhigh⟩ := hfits.sinceStart
    have hmax : barStart step moment.timestamp + offset ≤ maxDatetime := by
      linarith [moment.inRange.2]
    have hreads : barStart step moment.timestamp + offset -
        zone.utcoffset (barStart step moment.timestamp + offset) false =
          barStart step moment.timestamp := by
      rw [hfits.atStart, add_sub_cancel_right]
    -- the bar start is whole steps from the epoch on the clock too, and the moment within a step
    obtain ⟨k, hk⟩ := dvd_add hdvd hfits.sinceEpoch
    have hquotient : (moment.wall - zone.epoch) / step = k := by
      rw [Int.ediv_eq_iff_of_pos hpos]
      constructor <;> linarith
    refine ⟨⟨_, false, hfits.inRange, hmax⟩,
      (floorToTimeframe_eq_ok hstep).mpr ⟨?_, rfl⟩, ?_⟩
    · rw [hquotient, ← hk]
      ring
    · show StartsBar step (_ - zone.utcoffset _ false) _
      rw [hreads]
      exact hbar

/-- A bar start is its own bar start. -/
theorem floorToTimeframe_idem (hstep : parseTimeframe timeframe = .ok step)
    {moment start : AwareDatetime zone} (h : moment.floorToTimeframe timeframe = .ok start) :
    start.floorToTimeframe timeframe = .ok start := by
  have hpos := parseTimeframe_pos hstep
  obtain ⟨hwall, hfold⟩ := (floorToTimeframe_eq_ok hstep).mp h
  refine (floorToTimeframe_eq_ok hstep).mpr ⟨?_, hfold⟩
  rw [hwall, add_sub_cancel_left, Int.mul_ediv_cancel_left _ hpos.ne']

/-- With one offset the bar start is found as far as `datetime` reaches. -/
theorem aligned_fixed {offset : ℤ} {h : |offset| < dayMicros} (hpos : 0 < step)
    (moment : AwareDatetime (.fixed offset h)) :
    moment.Aligned step ↔ minDatetime ≤ barStart step moment.timestamp + offset := by
  have hepoch : (TimeZone.fixed offset h).epoch = offset := zero_add offset
  have hoffset : moment.utcoffset = offset := rfl
  obtain ⟨-, hle, hlt⟩ := (startsBar_iff hpos).mp (startsBar_barStart hpos moment.timestamp)
  constructor
  · rintro ⟨found, hfits⟩
    have hsame : offset = found := hfits.atStart
    exact hsame ▸ hfits.inRange
  · refine fun hmin => ⟨offset, rfl, ?_, ?_, hmin⟩
    · rw [hepoch, sub_self]
      exact dvd_zero step
    · rw [hoffset, sub_self, add_zero]
      exact ⟨sub_nonneg.mpr hle, sub_lt_iff_lt_add'.mpr hlt⟩

/-- Two moments, in any two timezones, are rounded down to the starts of their bars, whatever
    the timezones are, exactly when the offsets of both timezones allow it. The start is then one
    moment for one moment, is not earlier for a later one, and is its own bar start. -/
theorem floor_starts_bar_iff (hstep : parseTimeframe timeframe = .ok step)
    (moment₁ : AwareDatetime zone₁) (moment₂ : AwareDatetime zone₂) :
    (∃ start₁ start₂, moment₁.floorToTimeframe timeframe = .ok start₁ ∧
        moment₂.floorToTimeframe timeframe = .ok start₂ ∧
        StartsBar step start₁.timestamp moment₁.timestamp ∧
        StartsBar step start₂.timestamp moment₂.timestamp ∧
        (moment₁.timestamp = moment₂.timestamp → start₁.timestamp = start₂.timestamp) ∧
        (moment₁.timestamp ≤ moment₂.timestamp → start₁.timestamp ≤ start₂.timestamp) ∧
        start₁.floorToTimeframe timeframe = .ok start₁) ↔
      moment₁.Aligned step ∧ moment₂.Aligned step := by
  -- a moment is aligned exactly where its floor starts its bar
  rw [← exists_floor_iff hstep, ← exists_floor_iff hstep]
  constructor
  · rintro ⟨start₁, start₂, hfloor₁, hfloor₂, hstarts₁, hstarts₂, -⟩
    exact ⟨⟨start₁, hfloor₁, hstarts₁⟩, start₂, hfloor₂, hstarts₂⟩
  · rintro ⟨⟨start₁, hfloor₁, hstarts₁⟩, start₂, hfloor₂, hstarts₂⟩
    -- bars of the same moment are the same, and later moments have later bars
    refine ⟨start₁, start₂, hfloor₁, hfloor₂, hstarts₁, hstarts₂, fun hsame => ?_,
      hstarts₁.mono hstarts₂, floorToTimeframe_idem hstep hfloor₁⟩
    exact (hstarts₁.mono hstarts₂ hsame.le).antisymm (hstarts₂.mono hstarts₁ hsame.ge)

end AwareDatetime

/-! ## Summer time -/

/-- The summer of 2026 in Europe, in seconds since the epoch. -/
def summerStart : ℤ := 1774746000 * 1000000

def summerEnd : ℤ := 1792890000 * 1000000

def hourMicros : ℤ := 3600 * 1000000

/-- An hour ahead of UTC, and two in the summer of 2026. The hour at its end is read twice. -/
def centralEurope : TimeZone where
  utcoffset wall fold :=
    if summerStart + 2 * hourMicros ≤ wall ∧ (wall < summerEnd + hourMicros ∨
      wall < summerEnd + 2 * hourMicros ∧ fold = false) then 2 * hourMicros else hourMicros
  fromutc (t : ℤ) :=
    if summerStart ≤ t ∧ t < summerEnd then (t + 2 * hourMicros, false)
    else (t + hourMicros, decide (summerEnd ≤ t ∧ t < summerEnd + hourMicros))
  utcoffset_lt wall fold := by
    split <;> decide
  fromutc_sub (t : ℤ) := by
    have hhour : hourMicros = 3600000000 := rfl
    have hstart : summerStart = 1774746000000000 := rfl
    have hend : summerEnd = 1792890000000000 := rfl
    by_cases hsummer : summerStart ≤ t ∧ t < summerEnd
    · rw [if_pos hsummer]
      dsimp only
      rw [if_pos ⟨by omega, .inr ⟨by omega, rfl⟩⟩]
      omega
    · rw [if_neg hsummer]
      dsimp only
      have hwinter : ¬(summerStart + 2 * hourMicros ≤ t + hourMicros ∧
          (t + hourMicros < summerEnd + hourMicros ∨
            t + hourMicros < summerEnd + 2 * hourMicros ∧
              decide (summerEnd ≤ t ∧ t < summerEnd + hourMicros) = false)) := by
        rintro ⟨hafter, hfirst | ⟨hsecond, hfold⟩⟩
        · omega
        · have hnot := of_decide_eq_false hfold
          omega
      rw [if_neg hwinter]
      omega

/-- Noon UTC on a summer day, which is two in the afternoon. -/
def summerNoon : AwareDatetime centralEurope where
  wall := 1782907200 * 1000000 + 2 * hourMicros
  fold := false
  inRange := by decide

/-- The same moment in UTC. -/
def summerNoonUtc : AwareDatetime .utc where
  wall := 1782907200 * 1000000
  fold := false
  inRange := by decide

/-- Bars of four hours. -/
private theorem parse_4h : parseTimeframe "4h" = .ok (4 * hourMicros) := by decide

/-- With bars of an hour, two moments that are one are rounded down to one. -/
theorem floor_starts_bar_iff_hourly : ∃ start₁ start₂,
    summerNoon.floorToTimeframe "1h" = .ok start₁ ∧
      summerNoonUtc.floorToTimeframe "1h" = .ok start₂ ∧
      StartsBar hourMicros start₁.timestamp summerNoon.timestamp ∧
      StartsBar hourMicros start₂.timestamp summerNoonUtc.timestamp ∧
      (summerNoon.timestamp = summerNoonUtc.timestamp → start₁.timestamp = start₂.timestamp) ∧
      (summerNoon.timestamp ≤ summerNoonUtc.timestamp → start₁.timestamp ≤ start₂.timestamp) ∧
      start₁.floorToTimeframe "1h" = .ok start₁ := by
  have hparse : parseTimeframe "1h" = .ok hourMicros := by decide
  -- in summer the clock is two hours ahead, which is one more than at the epoch
  have hsummer : summerNoon.Aligned hourMicros :=
    ⟨2 * hourMicros, by show _ = _; decide +kernel, by decide +kernel, by decide +kernel,
      by decide +kernel⟩
  have hutc : summerNoonUtc.Aligned hourMicros :=
    (AwareDatetime.aligned_fixed (by decide) summerNoonUtc).mpr (by decide +kernel)
  exact (AwareDatetime.floor_starts_bar_iff hparse summerNoon summerNoonUtc).mpr
    ⟨hsummer, hutc⟩

/-- Noon UTC starts a bar of four hours, and in summer it is rounded down to eleven. -/
theorem summerNoon_rounded_to_eleven :
    summerNoon.timestamp = summerNoonUtc.timestamp ∧
      (∃ start, summerNoonUtc.floorToTimeframe "4h" = .ok start ∧
        start.timestamp = summerNoonUtc.timestamp) ∧
      ∃ start, summerNoon.floorToTimeframe "4h" = .ok start ∧
        start.timestamp = summerNoon.timestamp - hourMicros ∧
        ¬StartsBar (4 * hourMicros) start.timestamp summerNoon.timestamp := by
  refine ⟨by decide, ⟨summerNoonUtc, ?_, rfl⟩, ⟨summerNoon.wall - hourMicros, false, by decide⟩, ?_,
    by decide, fun hstarts => ?_⟩
  · exact (AwareDatetime.floorToTimeframe_eq_ok parse_4h).mpr ⟨by decide, rfl⟩
  · exact (AwareDatetime.floorToTimeframe_eq_ok parse_4h).mpr ⟨by decide, rfl⟩
  · exact absurd ((startsBar_iff (by decide)).mp hstarts).1 (by decide +kernel)

end TradingBot
