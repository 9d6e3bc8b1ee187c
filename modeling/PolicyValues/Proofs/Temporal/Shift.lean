import PolicyValues.Proofs.Decimal.Cut
import PolicyValues.Proofs.Temporal.Moves

/-!
Moves by days and smaller units. Component after component, they come to one shift of the clock by
the length of the duration, cut to whole milliseconds, and fail exactly where that shift leaves the
calendar. So they undo each other.
-/
namespace PolicyValues

namespace Duration

def clockSpan (u : Duration) : ℤ :=
  86400000 * u.days.toNat + 3600000 * u.hours.toNat + 60000 * u.minutes.toNat +
    ⌊1000 * u.seconds.toRat⌋

theorem clockSpan_eq (u : Duration) :
    u.clockSpan = 86400000 * u.days.toNat + 3600000 * u.hours.toNat + 60000 * u.minutes.toNat +
      (u.seconds.whole * 1000 + u.millis) := by
  rw [clockSpan, Decimal.floor_thousand_toRat u.plain.positive, Decimal.thousandths_split]
  rfl

/-- Whole seconds past 64 bits are too many for the calendar, as are the seconds that stand in for
them. -/
theorem clockMillis_eq_or_long (u : Duration) :
    u.clockMillis = u.clockSpan ∨ 2 ^ 73 ≤ (u.clockMillis : ℤ) ∧ 2 ^ 73 ≤ u.clockSpan := by
  rw [clockSpan_eq]
  unfold clockMillis wholeSeconds
  omega

def shiftMillis (u : Duration) : ℤ := u.sign * u.clockSpan

end Duration

namespace LocalTime

def InCalendar (millis : ℤ) : Prop :=
  millisPerDay * CivilDate.dayNumber ⟨-262143, 1, 1⟩ ≤ millis ∧
    millis ≤ millisPerDay * CivilDate.dayNumber ⟨262142, 12, 31⟩ + 86399999

theorem exists_millis_eq_iff {millis : ℤ} :
    (∃ t : LocalTime, t.millis = millis) ↔ InCalendar millis := by
  have first : CivilDate.dayNumber ⟨-262143, 1, 1⟩ = firstDay := firstDay_eq.symm
  have last : CivilDate.dayNumber ⟨262142, 12, 31⟩ = lastDay := lastDay_eq.symm
  unfold InCalendar
  rw [first, last]
  constructor
  · rintro ⟨t, rfl⟩
    have low := t.low
    have high := t.high
    unfold millisPerDay at *
    omega
  · rintro ⟨low, high⟩
    refine ⟨⟨millis, ?_, ?_⟩, rfl⟩
    · rwa [Int.mul_comm]
    · unfold millisPerDay at *
      omega

end LocalTime

namespace DateTime

theorem stepMonths_of_dayTime {u : Duration} (dayTime : u.hasYearMonth = false) (sign : Int)
    (wall : LocalTime) : stepMonths u sign wall = .ok wall := by
  simp only [Magnitudes.hasYearMonth, Bool.or_eq_false_iff, bne_eq_false_iff_eq] at dayTime
  obtain ⟨years, months⟩ := dayTime
  rw [stepMonths, years, months]
  rfl

/-- No two readings are as far apart as an amount that saturates, so a move that succeeds shifts the
clock by the amounts as they are written. -/
theorem move_eq_ok_iff_clockSpan {u : Duration} {sign : Int} (unit : sign = 1 ∨ sign = -1)
    {d e : DateTime} :
    d.move u sign = .ok e ↔ ∃ stepped, stepMonths u sign d.wall = .ok stepped ∧
      e.wall.millis = stepped.millis + sign * u.clockSpan ∧ e.zone = d.zone := by
  rw [move_eq_ok_iff unit]
  refine exists_congr fun stepped => and_congr_right fun _ => and_congr_left fun _ => ?_
  rcases u.clockMillis_eq_or_long with same | ⟨long, long'⟩
  · rw [same]
  · have forth := e.wall.millis_sub_lt stepped
    have back := stepped.millis_sub_lt e.wall
    rcases unit with rfl | rfl <;> omega

theorem exists_move_iff {u : Duration} {sign : Int} (unit : sign = 1 ∨ sign = -1) (d : DateTime) :
    (∃ e, d.move u sign = .ok e) ↔ ∃ stepped, stepMonths u sign d.wall = .ok stepped ∧
      LocalTime.InCalendar (stepped.millis + sign * u.clockSpan) := by
  simp only [move_eq_ok_iff_clockSpan unit, ← LocalTime.exists_millis_eq_iff]
  constructor
  · rintro ⟨e, stepped, steps, shown, _⟩
    exact ⟨stepped, steps, e.wall, shown⟩
  · rintro ⟨stepped, steps, wall, shown⟩
    exact ⟨⟨wall, d.zone⟩, stepped, steps, shown, rfl⟩

theorem move_of_dayTime {u : Duration} (dayTime : u.hasYearMonth = false) {sign : Int}
    (unit : sign = 1 ∨ sign = -1) {d e : DateTime} :
    d.move u sign = .ok e ↔
      e.wall.millis = d.wall.millis + sign * u.clockSpan ∧ e.zone = d.zone := by
  simp only [move_eq_ok_iff_clockSpan unit, stepMonths_of_dayTime dayTime, Except.ok.injEq,
    exists_eq_left']

theorem exists_move_iff_of_dayTime {u : Duration} (dayTime : u.hasYearMonth = false) {sign : Int}
    (unit : sign = 1 ∨ sign = -1) (d : DateTime) :
    (∃ e, d.move u sign = .ok e) ↔ LocalTime.InCalendar (d.wall.millis + sign * u.clockSpan) := by
  simp only [exists_move_iff unit, stepMonths_of_dayTime dayTime, Except.ok.injEq, exists_eq_left']

/-- Without years and months, adding is one shift of the clock by the length of the duration in
whole milliseconds, and subtracting is the shift back. Either fails exactly where the shift leaves
the calendar, and undoes the other. -/
theorem add_is_one_shift_of_dayTime (u : Duration) (dayTime : u.hasYearMonth = false)
    (d : DateTime) :
    ((∃ e, d.add u = .ok e) ↔ LocalTime.InCalendar (d.wall.millis + u.shiftMillis)) ∧
    (∀ e, d.add u = .ok e ↔ e.wall.millis = d.wall.millis + u.shiftMillis ∧ e.zone = d.zone) ∧
    ((∃ e, d.sub u = .ok e) ↔ LocalTime.InCalendar (d.wall.millis - u.shiftMillis)) ∧
    (∀ e, d.sub u = .ok e ↔ e.wall.millis = d.wall.millis - u.shiftMillis ∧ e.zone = d.zone) ∧
    ∀ e, d.add u = .ok e ↔ e.sub u = .ok d := by
  have unit := u.sign_eq
  have unit' := u.neg_sign_eq
  have back : -u.sign * u.clockSpan = -u.shiftMillis := Int.neg_mul _ _
  have added (d e : DateTime) : d.add u = .ok e ↔
      e.wall.millis = d.wall.millis + u.shiftMillis ∧ e.zone = d.zone :=
    move_of_dayTime dayTime unit
  have subtracted (d e : DateTime) : d.sub u = .ok e ↔
      e.wall.millis = d.wall.millis - u.shiftMillis ∧ e.zone = d.zone := by
    rw [Int.sub_eq_add_neg, ← back]
    exact move_of_dayTime dayTime unit'
  refine ⟨exists_move_iff_of_dayTime dayTime unit d, added d, ?_, subtracted d, fun e => ?_⟩
  · rw [Int.sub_eq_add_neg, ← back]
    exact exists_move_iff_of_dayTime dayTime unit' d
  · rw [added, subtracted, eq_comm (a := d.zone)]
    refine and_congr_left' ?_
    omega

theorem leap_day_passed_and_regained :
    let d : DateTime := ⟨⟨1330471800000, by decide, by decide⟩, none⟩
    let e : DateTime := ⟨⟨1330560000001, by decide, by decide⟩, none⟩
    let seconds : Decimal := ⟨false, 19, 4, by decide, by decide⟩
    let u : Duration := .signed false { days := 1, minutes := 30, seconds }
    let far : Duration := .signed false { days := 95010839 }
    (d.text = "2012-02-28T23:30:00" ∧ e.text = "2012-03-01T00:00:00.001" ∧
        u.text = "P1DT30M0.0019S" ∧ u.hasYearMonth = false) ∧
      (d.add u = .ok e ∧ u.shiftMillis = 88200001 ∧ e.sub u = .ok d) ∧
      far.hasYearMonth = false ∧ ¬ LocalTime.InCalendar (d.wall.millis + far.shiftMillis) ∧
        ¬ ∃ e, d.add far = .ok e := by
  intro d e seconds u far
  have dayTime : u.hasYearMonth = false := by decide +kernel
  have dayTime' : far.hasYearMonth = false := by decide +kernel
  have added : d.add u = .ok e := by decide +kernel
  have refused : d.add far = .error (tooFar "days") := by decide +kernel
  obtain ⟨_, shown, _, _, undone⟩ := add_is_one_shift_of_dayTime u dayTime d
  obtain ⟨within, _⟩ := add_is_one_shift_of_dayTime far dayTime' d
  have shift : e.wall.millis = d.wall.millis + u.shiftMillis := ((shown e).1 added).1
  have failed : ¬ ∃ e, d.add far = .ok e := by
    rintro ⟨e, moved⟩
    rw [refused] at moved
    simp only [reduceCtorEq] at moved
  refine ⟨⟨by decide +kernel, by decide +kernel, by decide +kernel, dayTime⟩,
    ⟨added, ?_, (undone e).1 added⟩, dayTime', mt within.2 failed, failed⟩
  simp only [e, d] at shift
  omega

end DateTime

end PolicyValues
