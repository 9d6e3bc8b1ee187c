import PolicyValues.Proofs.Temporal.Fields

/-!
Steps of whole months. Months are counted through from January of year 0; a step moves this count,
keeps the clock, and can only cut the day of the month to the length of the month it reaches.
-/
namespace PolicyValues

namespace CivilDate

def monthIndex (date : CivilDate) : Int := 12 * date.year + (date.month - 1)

/-- The day number of the first of a month. -/
def monthBegin (index : Int) : Int := dayNumber ⟨index / 12, (index % 12).toNat + 1, 1⟩

/-- The days that a number of months take, from the first of a month on. -/
def monthsSpan (index months : Int) : Int := monthBegin (index + months) - monthBegin index

theorem monthsSpan_zero (index : Int) : monthsSpan index 0 = 0 := by
  rw [monthsSpan, Int.add_zero, Int.sub_self]

theorem monthIndex_ediv {date : CivilDate} (valid : date.Valid) :
    date.monthIndex / 12 = date.year := by
  have month_pos := valid.month_pos
  have month_le := valid.month_le
  unfold monthIndex
  omega

theorem monthIndex_emod {date : CivilDate} (valid : date.Valid) :
    (date.monthIndex % 12).toNat + 1 = date.month := by
  have month_pos := valid.month_pos
  have month_le := valid.month_le
  unfold monthIndex
  omega

theorem le_monthLength (year : Int) (month : Nat) : 28 ≤ monthLength year month := by
  unfold monthLength
  split
  · split <;> decide
  · split <;> decide

theorem monthIndex_addMonths (date : CivilDate) (months : Int) :
    (date.addMonths months).monthIndex = date.monthIndex + months := by
  simp only [addMonths, monthIndex]
  omega

theorem day_addMonths (date : CivilDate) (months : Int) :
    (date.addMonths months).day =
      min date.day (monthLength (date.addMonths months).year (date.addMonths months).month) := rfl

theorem addMonths_valid {date : CivilDate} (valid : date.Valid) (months : Int) :
    (date.addMonths months).Valid := by
  have day_pos := valid.day_pos
  have length := le_monthLength (date.addMonths months).year (date.addMonths months).month
  refine ⟨Nat.succ_pos _, ?_, ?_, ?_⟩
  · simp only [addMonths]
    omega
  · rw [day_addMonths]
    omega
  · rw [day_addMonths]
    exact Nat.min_le_right _ _

theorem addMonths_zero {date : CivilDate} (valid : date.Valid) : date.addMonths 0 = date := by
  have year := monthIndex_ediv valid
  have month := monthIndex_emod valid
  unfold monthIndex at year month
  simp only [addMonths, Int.add_zero, year, month, Nat.min_eq_left valid.day_le]

theorem dayNumber_of_first (year : Int) (month : Nat) {day : Nat} (day_pos : 1 ≤ day) :
    dayNumber ⟨year, month, day⟩ = dayNumber ⟨year, month, 1⟩ + (day - 1) := by
  simp only [dayNumber, marchYearOf, marchDayOf]
  omega

theorem dayNumber_eq {date : CivilDate} (valid : date.Valid) :
    date.dayNumber = monthBegin date.monthIndex + (date.day - 1) := by
  rw [monthBegin, monthIndex_ediv valid, monthIndex_emod valid]
  exact dayNumber_of_first date.year date.month valid.day_pos

/-- Where whole years lead: to the same day, or to the 28th in place of a missing 29 February. -/
def throughYears (date : CivilDate) (years : Int) : CivilDate :=
  { date with day := min date.day (monthLength (date.year + years) date.month) }

theorem throughYears_valid {date : CivilDate} (valid : date.Valid) (years : Int) :
    (date.throughYears years).Valid := by
  have day_pos := valid.day_pos
  have length := le_monthLength (date.year + years) date.month
  refine ⟨valid.month_pos, valid.month_le, ?_, ?_⟩
  · simp only [throughYears]
    omega
  · exact Nat.le_trans (Nat.min_le_left _ _) valid.day_le

theorem addMonths_years {date : CivilDate} (valid : date.Valid) (years : Int) :
    date.addMonths (12 * years) =
      ⟨date.year + years, date.month,
        min date.day (monthLength (date.year + years) date.month)⟩ := by
  have := valid.month_pos
  have := valid.month_le
  have year_eq : (12 * date.year + (date.month - 1) + 12 * years) / 12 = date.year + years := by
    omega
  have month_eq : ((12 * date.year + (date.month - 1) + 12 * years) % 12).toNat + 1 =
      date.month := by
    omega
  simp only [addMonths, year_eq, month_eq]

theorem addMonths_years_months {date : CivilDate} (valid : date.Valid) (years months : Int) :
    (date.addMonths (12 * years)).addMonths months =
      (date.throughYears years).addMonths (12 * years + months) := by
  have index : 12 * (date.year + years) + ((date.month : Int) - 1) + months =
      12 * date.year + (date.month - 1) + (12 * years + months) := by
    omega
  rw [addMonths_years valid]
  simp only [addMonths, throughYears, index]

def LosesLeapDay (date : CivilDate) (years : Int) : Prop :=
  date.month = 2 ∧ date.day = 29 ∧ ¬ IsLeap (date.year + years)

instance (date : CivilDate) (years : Int) : Decidable (date.LosesLeapDay years) :=
  inferInstanceAs (Decidable (_ ∧ _ ∧ _))

theorem throughYears_of_loses {date : CivilDate} {years : Int} (h : date.LosesLeapDay years) :
    date.throughYears years = { date with day := 28 } := by
  obtain ⟨month, day, common⟩ := h
  simp only [throughYears, monthLength, month, day, common, if_true, if_false]
  rfl

theorem throughYears_of_keeps {date : CivilDate} (valid : date.Valid) {years : Int}
    (h : ¬ date.LosesLeapDay years) : date.throughYears years = date := by
  have le := valid.day_le
  have kept : min date.day (monthLength (date.year + years) date.month) = date.day := by
    unfold LosesLeapDay at h
    unfold monthLength at le ⊢
    by_cases february : date.month = 2
    · by_cases leap : IsLeap (date.year + years)
      · simp only [february, leap, if_true] at le ⊢
        split at le <;> omega
      · simp only [february, leap, if_true, if_false, true_and, not_false_eq_true,
          and_true] at le h ⊢
        split at le <;> omega
    · simp only [february, if_false] at le ⊢
      omega
  rw [throughYears, kept]

end CivilDate

namespace Day

theorem number_eq (day : Day) :
    day.number = CivilDate.monthBegin day.date.monthIndex + (day.date.day - 1) := by
  rw [← CivilDate.dayNumber_eq day.date_valid]
  exact (CivilDate.dayNumber_ofDayNumber day.number).symm

theorem firstDay_le_dayNumber {date : CivilDate} (valid : date.Valid) (h : firstYear ≤ date.year) :
    firstDay ≤ date.dayNumber := by
  have start : firstDay + CivilDate.epochShift = CivilDate.marchStart (firstYear - 1) + 306 := by
    decide
  have := valid.month_pos
  have := valid.month_le
  have := valid.day_pos
  unfold CivilDate.dayNumber CivilDate.marchYearOf CivilDate.marchDayOf CivilDate.monthStart
  split
  · have := CivilDate.marchStart_mono (show firstYear - 1 ≤ date.year - 1 by omega)
    omega
  · have := CivilDate.marchStart_mono h
    have next := CivilDate.marchStart_succ (firstYear - 1)
    rw [Int.sub_add_cancel] at next
    split at next <;> omega

theorem dayNumber_le_lastDay {date : CivilDate} (valid : date.Valid) (h : date.year ≤ lastYear) :
    date.dayNumber ≤ lastDay := by
  have finish : lastDay + CivilDate.epochShift = CivilDate.marchStart lastYear + 305 := by decide
  have := valid.month_pos
  have := valid.month_le
  have bound := CivilDate.marchDayOf_lt valid
  unfold CivilDate.dayNumber
  by_cases early : date.month ≤ 2
  · have year : date.marchYearOf + 1 = date.year := by
      unfold CivilDate.marchYearOf
      rw [if_pos early]
      omega
    have := CivilDate.marchStart_mono h
    rw [year] at bound
    omega
  · have year : date.marchYearOf = date.year := by
      unfold CivilDate.marchYearOf
      rw [if_neg early]
    have length := CivilDate.monthStart_add_monthLength date.year valid.month_pos valid.month_le
    have le := valid.day_le
    have mono := CivilDate.marchStart_mono h
    rw [if_neg (by omega)] at length
    rw [year]
    unfold CivilDate.marchDayOf
    unfold CivilDate.monthStart at *
    omega

theorem ofDate?_isSome_iff {date : CivilDate} (valid : date.Valid) :
    (ofDate? date).isSome = true ↔ firstYear ≤ date.year ∧ date.year ≤ lastYear := by
  constructor
  · intro h
    obtain ⟨day, found⟩ := Option.isSome_iff_exists.1 h
    rw [← date_of_ofDate? found]
    exact ⟨day.firstYear_le_year, day.year_le_lastYear⟩
  · rintro ⟨first, last⟩
    simp only [ofDate?, firstDay_le_dayNumber valid first, dayNumber_le_lastDay valid last, valid,
      and_self, dite_true, if_true, Option.isSome_some]

end Day

namespace LocalTime

theorem date_valid (t : LocalTime) : t.date.Valid := t.day.date_valid

theorem index_bounds (t : LocalTime) :
    12 * firstYear ≤ t.date.monthIndex ∧ t.date.monthIndex ≤ 12 * lastYear + 11 := by
  have first := t.day.firstYear_le_year
  have last := t.day.year_le_lastYear
  obtain ⟨month_pos, month_le, _, _⟩ := t.date_valid
  unfold CivilDate.monthIndex
  unfold date at *
  omega

theorem millis_eq (t : LocalTime) :
    t.millis = t.day.number * millisPerDay + t.timeOfDay.millis := by
  conv => lhs; rw [← ofDay_day_timeOfDay t]
  rfl

def onDate? (t : LocalTime) (date : CivilDate) : Option LocalTime :=
  (Day.ofDate? date).map fun day => ofDay day t.timeOfDay

theorem addMonths?_eq (t : LocalTime) (months : Int) :
    t.addMonths? months = t.onDate? (t.date.addMonths months) := rfl

theorem onDate?_eq_some_iff {t u : LocalTime} {date : CivilDate} :
    t.onDate? date = some u ↔ u.date = date ∧ u.timeOfDay = t.timeOfDay := by
  unfold onDate?
  constructor
  · intro h
    obtain ⟨day, found, rfl⟩ := Option.map_eq_some_iff.1 h
    rw [LocalTime.date, day_ofDay, timeOfDay_ofDay]
    exact ⟨Day.date_of_ofDate? found, rfl⟩
  · rintro ⟨rfl, time⟩
    rw [← time]
    exact Option.map_eq_some_iff.2 ⟨u.day, u.day.ofDate?_date, u.ofDay_day_timeOfDay⟩

theorem addMonths?_zero (t : LocalTime) : t.addMonths? 0 = some t := by
  rw [addMonths?_eq, CivilDate.addMonths_zero t.date_valid]
  exact onDate?_eq_some_iff.2 ⟨rfl, rfl⟩

theorem addMonths?_isSome_iff (t : LocalTime) (months : Int) :
    (t.addMonths? months).isSome = true ↔
      12 * firstYear ≤ t.date.monthIndex + months ∧
        t.date.monthIndex + months ≤ 12 * lastYear + 11 := by
  have valid := CivilDate.addMonths_valid t.date_valid months
  have index := CivilDate.monthIndex_addMonths t.date months
  have := valid.month_pos
  have := valid.month_le
  rw [addMonths?_eq, onDate?, Option.isSome_map, Day.ofDate?_isSome_iff valid, ← index]
  unfold CivilDate.monthIndex
  omega

/-- Years and then months of one direction, where they lead, lead as one step of months would from
where the years alone lead. -/
theorem addMonths?_years_months (t : LocalTime) {years months : Int}
    (direction : 0 ≤ years ∧ 0 ≤ months ∨ years ≤ 0 ∧ months ≤ 0) :
    ((t.addMonths? (12 * years)).bind fun u => u.addMonths? months) =
      t.onDate? ((t.date.throughYears years).addMonths (12 * years + months)) := by
  refine Option.ext fun u => ?_
  rw [← CivilDate.addMonths_years_months t.date_valid, Option.bind_eq_some_iff]
  constructor
  · rintro ⟨v, first, second⟩
    obtain ⟨date, time⟩ := onDate?_eq_some_iff.1 first
    obtain ⟨date', time'⟩ := onDate?_eq_some_iff.1 second
    rw [date] at date'
    exact onDate?_eq_some_iff.2 ⟨date', time'.trans time⟩
  · intro both
    obtain ⟨date, time⟩ := onDate?_eq_some_iff.1 both
    -- Both ends lie in the calendar, and so does what is between them.
    have start := t.index_bounds
    have finish := u.index_bounds
    rw [date, CivilDate.monthIndex_addMonths, CivilDate.monthIndex_addMonths] at finish
    have within : (t.addMonths? (12 * years)).isSome = true :=
      (t.addMonths?_isSome_iff _).2 (by omega)
    obtain ⟨v, first⟩ := Option.isSome_iff_exists.1 within
    obtain ⟨date', time'⟩ := onDate?_eq_some_iff.1 first
    refine ⟨v, first, onDate?_eq_some_iff.2 ⟨?_, time.trans time'.symm⟩⟩
    rw [date, date']

end LocalTime

end PolicyValues
