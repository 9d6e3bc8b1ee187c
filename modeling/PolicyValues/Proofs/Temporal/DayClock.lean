import PolicyValues.Proofs.Temporal.EarlyDays
import PolicyValues.Proofs.Temporal.RoundTrip
import PolicyValues.Proofs.Temporal.Shift

/-!
Arithmetic on times of day is that of a clock face. On the way a time lies on 1970-01-01 and may
leave it by any number of months and days, which it drops in the end; all that is left of a move is
its hours, minutes and seconds, counted on from the time modulo one day.
-/
namespace PolicyValues

namespace Duration

def timeSpan (u : Duration) : ℤ :=
  3600000 * u.hours.toNat + 60000 * u.minutes.toNat + ⌊1000 * u.seconds.toRat⌋

theorem clockSpan_eq_days_add (u : Duration) :
    u.clockSpan = millisPerDay * u.days.toNat + u.timeSpan := by
  unfold clockSpan timeSpan millisPerDay
  omega

end Duration

theorem TimeOfDay.eq_of_millis {s t : TimeOfDay} (h : s.millis = t.millis) : s = t := by
  obtain ⟨_, _⟩ := s
  obtain ⟨_, _⟩ := t
  simpa only [TimeOfDay.mk.injEq] using h

namespace LocalTime

theorem millis_timeOfDay (t : LocalTime) : (t.timeOfDay.millis : ℤ) = t.millis % millisPerDay := by
  unfold timeOfDay millisPerDay
  simp only
  omega

theorem millis_of_addMonths? {t moved : LocalTime} (first : t.date.day = 1) {months : ℤ}
    (h : t.addMonths? months = some moved) :
    moved.millis =
      millisPerDay * CivilDate.monthBegin (t.date.monthIndex + months) + t.timeOfDay.millis := by
  obtain ⟨date, time⟩ := onDate?_eq_some_iff.1 h
  have day : moved.date.day = 1 := by
    rw [date, CivilDate.day_addMonths_of_early (by omega), first]
  have number : moved.day.number = CivilDate.monthBegin (t.date.monthIndex + months) := by
    have counted := moved.day.number_eq
    rw [← LocalTime.date, day, date, CivilDate.monthIndex_addMonths] at counted
    omega
  rw [moved.millis_eq, number, time, Int.mul_comm]

end LocalTime

namespace DateTime

theorem stepMonths_eq_ok_iff_of_early {u : Duration} {sign : ℤ} (unit : sign = 1 ∨ sign = -1)
    {wall stepped : LocalTime} (early : wall.date.day ≤ 28) :
    stepMonths u sign wall = .ok stepped ↔
      wall.addMonths? (sign * u.monthCount) = some stepped := by
  have steps (fits : u.years.toNat * 12 < 2 ^ 64) : stepMonths u sign wall =
      reaching "months" (wall.addMonths? (sign * u.monthCount)) := by
    rw [stepMonths_eq fits unit, LocalTime.addMonths?_eq,
      CivilDate.throughYears_of_keeps wall.date_valid (CivilDate.keeps_of_early early _)]
  constructor
  · intro h
    obtain ⟨_, years, _⟩ := bind_eq_ok_iff.1 h
    rwa [steps (fits_of_addYears years), reaching_eq_ok_iff] at h
  · intro h
    have near := (wall.addMonths?_isSome_iff _).1 (Option.isSome_iff_exists.2 ⟨stepped, h⟩)
    have start := wall.index_bounds
    have fits : u.years.toNat * 12 < 2 ^ 64 := by
      unfold firstYear lastYear Duration.monthCount at *
      rcases unit with rfl | rfl <;> omega
    rwa [steps fits, reaching_eq_ok_iff]

end DateTime

namespace Time
open DateTime

theorem eq_of_timeOfDay {s t : Time} (time : s.timeOfDay = t.timeOfDay) (zone : s.zone = t.zone) :
    s = t := by
  unfold timeOfDay at time
  rw [← s.ofDateTime_toDateTime, ← t.ofDateTime_toDateTime]
  apply toDateTime_injective
  simp only [ofDateTime, time, zone]

/-- From the start of 1970, the years and months of a duration lead to a month of the calendar, and
the rest leads from the time on the first of that month to a reading. -/
structure StaysInCalendar (t : Time) (u : Duration) (sign : ℤ) : Prop where
  first : firstYear ≤ (12 * 1970 + sign * u.monthCount) / 12
  last : (12 * 1970 + sign * u.monthCount) / 12 ≤ lastYear
  reading : LocalTime.InCalendar
    (millisPerDay * CivilDate.monthBegin (12 * 1970 + sign * u.monthCount) + t.timeOfDay.millis +
      sign * u.clockSpan)

theorem exists_move_iff {u : Duration} {sign : ℤ} (unit : sign = 1 ∨ sign = -1) (t : Time) :
    (∃ d, t.toDateTime.move u sign = .ok d) ↔ t.StaysInCalendar u sign := by
  have date : t.wall.date = ⟨1970, 1, 1⟩ := by
    rw [LocalTime.date, t.pinned, Day.date_epoch]
  have first : t.wall.date.day = 1 := congrArg CivilDate.day date
  have index : t.wall.date.monthIndex = 12 * 1970 := by
    rw [date]
    rfl
  have years := t.wall.addMonths?_isSome_iff (sign * u.monthCount)
  rw [DateTime.exists_move_iff unit]
  simp only [stepMonths_eq_ok_iff_of_early unit (first.trans_le (by decide))]
  rw [index] at years
  constructor
  · rintro ⟨stepped, found, within⟩
    have millis := LocalTime.millis_of_addMonths? first found
    rw [found, Option.isSome_some] at years
    rw [millis, index] at within
    obtain ⟨low, high⟩ := years.1 rfl
    exact ⟨by omega, by omega, within⟩
  · rintro ⟨low, high, within⟩
    obtain ⟨stepped, found⟩ := Option.isSome_iff_exists.1 (years.2 (by omega))
    refine ⟨stepped, found, ?_⟩
    rwa [LocalTime.millis_of_addMonths? first found, index]

theorem millis_of_move {t e : Time} {u : Duration} {sign : ℤ} (unit : sign = 1 ∨ sign = -1)
    (h : (t.toDateTime.move u sign).map ofDateTime = .ok e) :
    (e.timeOfDay.millis : ℤ) = (t.timeOfDay.millis + sign * u.timeSpan) % millisPerDay ∧
      e.zone = t.zone := by
  obtain ⟨d, moved, rfl⟩ := map_eq_ok_iff.1 h
  obtain ⟨stepped, steps, shown, zone⟩ := (move_eq_ok_iff_clockSpan unit).1 moved
  refine ⟨?_, zone⟩
  have start : t.timeOfDay = stepped.timeOfDay := (timeOfDay_of_stepMonths steps).symm
  have time : (ofDateTime d).timeOfDay = d.wall.timeOfDay :=
    LocalTime.timeOfDay_ofDay .epoch d.wall.timeOfDay
  have days : sign * u.clockSpan =
      sign * u.timeSpan + millisPerDay * (sign * u.days.toNat) := by
    rw [u.clockSpan_eq_days_add, Int.mul_add, Int.mul_left_comm, Int.add_comm]
  rw [time, start, d.wall.millis_timeOfDay, shown, days, ← Int.add_assoc,
    Int.add_mul_emod_self_left, stepped.millis_timeOfDay, Int.emod_add_emod]

theorem move_back {t e f : Time} {u : Duration} {sign : ℤ} (unit : sign = 1 ∨ sign = -1)
    (forth : (t.toDateTime.move u sign).map ofDateTime = .ok e)
    (back : (e.toDateTime.move u (-sign)).map ofDateTime = .ok f) : f = t := by
  obtain ⟨there, zone⟩ := millis_of_move unit forth
  obtain ⟨here, zone'⟩ := millis_of_move (by omega) back
  rw [there, Int.emod_add_emod, Int.neg_mul, Int.add_neg_cancel_right] at here
  have bound := t.timeOfDay.bound
  refine eq_of_timeOfDay (TimeOfDay.eq_of_millis ?_) (zone'.trans zone)
  unfold millisPerDay at here
  omega

theorem exists_map_ofDateTime_iff {moved : Except ValueError DateTime} :
    (∃ e, moved.map ofDateTime = .ok e) ↔ ∃ d, moved = .ok d := by
  simp only [map_eq_ok_iff]
  constructor
  · rintro ⟨_, d, ok, _⟩
    exact ⟨d, ok⟩
  · rintro ⟨d, ok⟩
    exact ⟨_, d, ok, rfl⟩

/-- A sum is the time some hours, minutes and seconds on from the given one around the clock, and a
difference the time as far back, whichever years, months and days the duration has besides. These
matter only to whether there is a result, as the calendar must reach far enough from 1970-01-01.
Where both steps have one, each undoes the other. -/
theorem arithmetic_goes_round_the_clock (t : Time) (u : Duration) :
    ((∃ e, t.add u = .ok e) ↔ t.StaysInCalendar u u.sign) ∧
    (∀ e, t.add u = .ok e →
      (e.timeOfDay.millis : ℤ) = (t.timeOfDay.millis + u.sign * u.timeSpan) % millisPerDay ∧
        e.zone = t.zone ∧ ∀ f, e.sub u = .ok f → f = t) ∧
    ((∃ e, t.sub u = .ok e) ↔ t.StaysInCalendar u (-u.sign)) ∧
    (∀ e, t.sub u = .ok e →
      (e.timeOfDay.millis : ℤ) = (t.timeOfDay.millis - u.sign * u.timeSpan) % millisPerDay ∧
        e.zone = t.zone ∧ ∀ f, e.add u = .ok f → f = t) := by
  have unit := u.sign_eq
  have unit' := u.neg_sign_eq
  have sums : (∃ e, t.add u = .ok e) ↔ t.StaysInCalendar u u.sign :=
    exists_map_ofDateTime_iff.trans (exists_move_iff unit t)
  have differences : (∃ e, t.sub u = .ok e) ↔ t.StaysInCalendar u (-u.sign) :=
    exists_map_ofDateTime_iff.trans (exists_move_iff unit' t)
  refine ⟨sums, fun e added => ?_, differences, fun e subtracted => ?_⟩
  · obtain ⟨millis, zone⟩ := millis_of_move unit added
    exact ⟨millis, zone, fun f back => move_back unit added back⟩
  · obtain ⟨millis, zone⟩ := millis_of_move unit' subtracted
    rw [Int.neg_mul, ← Int.sub_eq_add_neg] at millis
    refine ⟨millis, zone, fun f back => move_back unit' subtracted ?_⟩
    rwa [Int.neg_neg]

theorem clock_passes_midnight :
    let atMillis (millis : Nat) (bound : millis < 86400000) : Time :=
      .ofDateTime ⟨.ofDay .epoch ⟨millis, bound⟩, some .utc⟩
    let t := atMillis 84600000 (by decide)
    let later := atMillis 2700001 (by decide)
    let earlier := atMillis 80099999 (by decide)
    let seconds : Decimal := ⟨false, 19, 4, by decide, by decide⟩
    let u : Duration := .signed false
      { years := 3, months := 1, days := 40, hours := 25, minutes := 15, seconds }
    (t.text = "23:30:00Z" ∧ later.text = "00:45:00.001Z" ∧ earlier.text = "22:14:59.999Z" ∧
        u.text = "P3Y1M40DT25H15M0.0019S" ∧ u.timeSpan = 90900001) ∧
      (t.StaysInCalendar u u.sign ∧ t.add u = .ok later ∧
        (later.timeOfDay.millis : ℤ) =
          (t.timeOfDay.millis + u.sign * u.timeSpan) % millisPerDay ∧
        later.sub u = .ok t) ∧
      (t.StaysInCalendar u (-u.sign) ∧ t.sub u = .ok earlier ∧
        (earlier.timeOfDay.millis : ℤ) =
          (t.timeOfDay.millis - u.sign * u.timeSpan) % millisPerDay ∧
        earlier.add u = .ok t) := by
  intro atMillis t later earlier seconds u
  have texts : t.text = "23:30:00Z" ∧ later.text = "00:45:00.001Z" ∧
      earlier.text = "22:14:59.999Z" ∧ u.text = "P3Y1M40DT25H15M0.0019S" := by decide +kernel
  have span : u.timeSpan = 90900001 := by
    rw [Duration.timeSpan, Decimal.floor_thousand_toRat (by decide)]
    decide +kernel
  have added : t.add u = .ok later := by decide +kernel
  have subtracted : t.sub u = .ok earlier := by decide +kernel
  have undone : later.sub u = .ok t ∧ earlier.add u = .ok t := by decide +kernel
  obtain ⟨sums, sum, differences, difference⟩ := arithmetic_goes_round_the_clock t u
  obtain ⟨shown, shown', shown'', written⟩ := texts
  exact ⟨⟨shown, shown', shown'', written, span⟩,
    ⟨sums.1 ⟨later, added⟩, added, (sum later added).1, undone.1⟩,
    ⟨differences.1 ⟨earlier, subtracted⟩, subtracted, (difference earlier subtracted).1, undone.2⟩⟩

end Time

end PolicyValues
