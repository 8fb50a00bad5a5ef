import TradingBot.Exchange.Timeframes

/-!
# Bars in a timezone

A `datetime` is a reading of the wall clock in its timezone. Subtracting two of one timezone
and adding a `timedelta` work on the readings, whatever the offsets are. Where the clock is
put back, two moments have one reading, which the fold tells apart.
-/

namespace TradingBot

/-- A timezone: the offset of each reading, and the reading of each moment, which is one of
    that moment. Readings are in microseconds, as if they were in UTC. -/
structure TimeZone where
  utcoffset : ℤ → Bool → ℤ
  fromutc : Instant → ℤ × Bool
  utcoffset_lt : ∀ wall fold, |utcoffset wall fold| < dayMicros
  fromutc_sub : ∀ t, (fromutc t).1 - utcoffset (fromutc t).1 (fromutc t).2 = t

namespace TimeZone

/-- A timezone with one offset. -/
def fixed (offset : ℤ) (h : |offset| < dayMicros) : TimeZone where
  utcoffset _ _ := offset
  fromutc t := (t + offset, false)
  utcoffset_lt _ _ := h
  fromutc_sub t := add_sub_cancel_right t offset

def utc : TimeZone := fixed 0 (by decide)

/-- The reading of the Unix epoch: `datetime.fromtimestamp(0, tz=zone)`. -/
def epoch (zone : TimeZone) : ℤ := (zone.fromutc 0).1

/-- The clock on the wall shows less than a day at the epoch, in either direction. -/
theorem abs_epoch_lt (zone : TimeZone) : |zone.epoch| < dayMicros := by
  have hepoch : zone.epoch = zone.utcoffset zone.epoch (zone.fromutc 0).2 :=
    sub_eq_zero.mp (zone.fromutc_sub 0)
  rw [hepoch]
  exact zone.utcoffset_lt _ _

end TimeZone

/-- An aware `datetime` of a timezone. -/
structure AwareDatetime (zone : TimeZone) where
  wall : ℤ
  fold : Bool
  inRange : InDatetimeRange wall

namespace AwareDatetime

variable {zone : TimeZone}

/-- The moment a reading is of. -/
def timestamp (moment : AwareDatetime zone) : Instant :=
  moment.wall - zone.utcoffset moment.wall moment.fold

/-- `moment + delta`, which never sets the fold. -/
def ofWall (zone : TimeZone) (wall : ℤ) : Except Error (AwareDatetime zone) :=
  if h : InDatetimeRange wall then .ok ⟨wall, false, h⟩
  else .error (.overflowError "date value out of range")

/-- A moment is built from a reading of the clock, as the first of its two if there are two. -/
theorem ofWall_eq_ok {wall : ℤ} {moment : AwareDatetime zone} :
    ofWall zone wall = .ok moment ↔ moment.wall = wall ∧ moment.fold = false := by
  unfold ofWall
  split
  next h =>
    rw [Except.ok.injEq]
    constructor
    · rintro rfl
      exact ⟨rfl, rfl⟩
    · rintro ⟨rfl, hfold⟩
      cases moment
      subst hfold
      rfl
  next h => exact iff_of_false nofun fun hok => h (hok.1 ▸ moment.inRange)

/-- Round a `datetime` down to the start of its bar, in its timezone. -/
def floorToTimeframe (moment : AwareDatetime zone) (timeframe : String) :
    Except Error (AwareDatetime zone) := do
  let step ← parseTimeframe timeframe
  -- both readings are of the one timezone, so the offsets do not enter
  let elapsed := moment.wall - zone.epoch
  let whole ← timedelta (step * (elapsed / step))
  ofWall zone (zone.epoch + whole)

/-- The reading of the bar start: the last one, not after that of the moment, that is a whole
    number of steps from that of the epoch. -/
theorem floorToTimeframe_eq_ok {moment start : AwareDatetime zone} {timeframe : String}
    {step : Duration} (hstep : parseTimeframe timeframe = .ok step) :
    moment.floorToTimeframe timeframe = .ok start ↔
      start.wall = zone.epoch + step * ((moment.wall - zone.epoch) / step) ∧
        start.fold = false := by
  have hpos := parseTimeframe_pos hstep
  have hle : step * ((moment.wall - zone.epoch) / step) ≤ moment.wall - zone.epoch :=
    Int.mul_ediv_self_le hpos.ne'
  unfold floorToTimeframe
  simp only [hstep, bind, Except.bind]
  constructor
  · intro h
    obtain ⟨whole, hwhole, h⟩ := Except.bind_eq_ok.mp h
    rw [ofWall_eq_ok, timedelta_ok hwhole] at h
    exact h
  · rintro ⟨hwall, hfold⟩
    obtain ⟨hepochlow, hepochhigh⟩ := abs_lt.mp zone.abs_epoch_lt
    -- the bar start is a `datetime`, hence the steps to it are a `timedelta`
    have hlow : minDatetime ≤ start.wall := start.inRange.1
    have hhigh : moment.wall ≤ maxDatetime := moment.inRange.2
    have hday : dayMicros ≤ maxDatetime := by decide
    have hwhole : timedelta (step * ((moment.wall - zone.epoch) / step)) =
        .ok (step * ((moment.wall - zone.epoch) / step)) :=
      timedelta_of_le (by linarith [minDatetime_neg, maxDatetime_pos])
        (by linarith [minDatetime_neg, maxDatetime_pos])
    simp only [hwhole]
    exact ofWall_eq_ok.mpr ⟨hwall, hfold⟩

end AwareDatetime

/-- In UTC a reading is the moment itself, and the bars are the ones of `floorToTimeframe`. -/
theorem floorToTimeframe_utc (moment : AwareDatetime .utc) (timeframe : String) :
    (moment.floorToTimeframe timeframe).map (·.wall) =
      floorToTimeframe moment.wall timeframe := by
  have hepoch : TimeZone.utc.epoch = 0 := rfl
  unfold AwareDatetime.floorToTimeframe floorToTimeframe
  cases parseTimeframe timeframe with
  | error e => rfl
  | ok step =>
    simp only [bind, Except.bind, hepoch, sub_zero]
    cases timedelta (step * (moment.wall / step)) with
    | error e => rfl
    | ok whole =>
      simp only [zero_add, AwareDatetime.ofWall]
      split
      next h => exact (if_pos h).symm
      next h => exact (if_neg h).symm

end TradingBot
