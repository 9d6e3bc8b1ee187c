import Mathlib.Data.Int.Init
import PolicyValues.Proofs.Calendar.Months

/-!
The day after a date and the day before it, read off the lengths of the months. Day numbers count
these steps from 1970-01-01 on, and no other numbering of the dates does.
-/
namespace PolicyValues

namespace CivilDate

def next (date : CivilDate) : CivilDate :=
  if date.day < monthLength date.year date.month then { date with day := date.day + 1 }
  else if date.month < 12 then ⟨date.year, date.month + 1, 1⟩
  else ⟨date.year + 1, 1, 1⟩

def previous (date : CivilDate) : CivilDate :=
  if 1 < date.day then { date with day := date.day - 1 }
  else if 1 < date.month then
    ⟨date.year, date.month - 1, monthLength date.year (date.month - 1)⟩
  else ⟨date.year - 1, 12, 31⟩

theorem first_valid (year : Int) {month : Nat} (month_pos : 1 ≤ month) (month_le : month ≤ 12) :
    Valid ⟨year, month, 1⟩ :=
  ⟨month_pos, month_le, Nat.le_refl 1,
    Nat.le_trans (show 1 ≤ 28 by decide) (le_monthLength year month)⟩

theorem next_valid {date : CivilDate} (valid : date.Valid) : date.next.Valid := by
  unfold next
  split
  · exact ⟨valid.month_pos, valid.month_le, Nat.succ_pos _, ‹_›⟩
  · split
    · exact first_valid _ (Nat.succ_pos _) ‹_›
    · exact first_valid _ (Nat.le_refl 1) (by decide)

theorem previous_valid {date : CivilDate} (valid : date.Valid) : date.previous.Valid := by
  obtain ⟨month_pos, month_le, day_pos, day_le⟩ := valid
  unfold previous
  split
  · refine ⟨month_pos, month_le, ?_, Nat.le_trans (Nat.sub_le _ _) day_le⟩
    simp only
    omega
  · split
    · refine ⟨?_, Nat.le_trans (Nat.sub_le _ _) month_le, ?_, Nat.le_refl _⟩
      · simp only
        omega
      · exact Nat.le_trans (by decide) (le_monthLength _ _)
    · exact ⟨Nat.succ_pos _, Nat.le_refl 12, Nat.succ_pos _, Nat.le_refl 31⟩

theorem next_previous {date : CivilDate} (valid : date.Valid) : date.previous.next = date := by
  obtain ⟨year, month, day⟩ := date
  obtain ⟨month_pos, month_le, day_pos, day_le⟩ := valid
  simp only at month_pos month_le day_pos day_le
  unfold previous
  simp only
  split
  · have within : day - 1 < monthLength year month := by omega
    simp only [next, within, if_true, CivilDate.mk.injEq, true_and]
    omega
  · split
    · have before : month - 1 < 12 := by omega
      simp only [next, Nat.lt_irrefl, before, if_false, if_true, CivilDate.mk.injEq, true_and]
      omega
    · have december : ¬ 31 < monthLength (year - 1) 12 := Nat.lt_irrefl 31
      simp only [next, december, if_false, Nat.lt_irrefl, CivilDate.mk.injEq]
      omega

theorem dayNumber_first_succ (year : Int) {month : Nat} (month_pos : 1 ≤ month)
    (month_lt : month < 12) :
    dayNumber ⟨year, month + 1, 1⟩ = dayNumber ⟨year, month, 1⟩ + monthLength year month := by
  have length := monthStart_add_monthLength year month_pos (Nat.le_of_lt month_lt)
  simp only [dayNumber, marchYearOf, marchDayOf]
  rcases Nat.lt_trichotomy month 2 with january | february | later
  · obtain rfl : month = 1 := by omega
    have days : monthLength year 1 = 31 := rfl
    simp only [days, monthStart, Nat.reduceAdd, Nat.reduceLeDiff, if_true]
    omega
  -- The leap day is the last of its March year, and March begins the next one.
  · subst february
    have step := marchStart_succ (year - 1)
    rw [Int.sub_add_cancel] at step
    rw [if_pos rfl] at length
    have march : ¬ 2 + 1 ≤ 2 := by decide
    have start : monthStart ((2 + 1 + 9) % 12) = 0 := rfl
    simp only [march, Nat.le_refl, if_true, if_false, step, start]
    split <;> simp_all only [if_true, if_false] <;> omega
  · have late : ¬ month ≤ 2 := by omega
    have later_still : ¬ month + 1 ≤ 2 := by omega
    have after : (month + 1 + 9) % 12 = (month + 9) % 12 + 1 := by omega
    rw [if_neg (by omega)] at length
    simp only [late, later_still, if_false, after, ← length]
    omega

theorem dayNumber_newYear (year : Int) :
    dayNumber ⟨year + 1, 1, 1⟩ = dayNumber ⟨year, 12, 1⟩ + monthLength year 12 := by
  have december : monthLength year 12 = 31 := rfl
  simp only [dayNumber, marchYearOf, marchDayOf, december, monthStart, Nat.reduceLeDiff, if_true,
    if_false, Int.add_sub_cancel]
  omega

theorem dayNumber_next {date : CivilDate} (valid : date.Valid) :
    date.next.dayNumber = date.dayNumber + 1 := by
  obtain ⟨year, month, day⟩ := date
  obtain ⟨month_pos, month_le, day_pos, day_le⟩ := valid
  simp only at month_pos month_le day_pos day_le
  rw [dayNumber_of_first year month day_pos]
  by_cases within : day < monthLength year month
  · rw [next, if_pos within, dayNumber_of_first year month (Nat.succ_pos day)]
    omega
  · rw [next, if_neg within]
    by_cases earlier : month < 12
    · rw [if_pos earlier, dayNumber_first_succ year month_pos earlier]
      omega
    · obtain rfl : month = 12 := by omega
      rw [if_neg earlier, dayNumber_newYear year]
      omega

theorem dayNumber_previous {date : CivilDate} (valid : date.Valid) :
    date.previous.dayNumber = date.dayNumber - 1 := by
  have step := dayNumber_next (previous_valid valid)
  rw [next_previous valid] at step
  omega

theorem ofDayNumber_succ (number : Int) :
    ofDayNumber (number + 1) = (ofDayNumber number).next := by
  have valid := ofDayNumber_valid number
  rw [← ofDayNumber_dayNumber (next_valid valid), dayNumber_next valid, dayNumber_ofDayNumber]

/-- A numbering of the dates day by day, from 0 for 1970-01-01. -/
structure CountsDays (count : CivilDate → Int) : Prop where
  epoch : count ⟨1970, 1, 1⟩ = 0
  next : ∀ date : CivilDate, date.Valid → count date.next = count date + 1

theorem countsDays_dayNumber : CountsDays dayNumber where
  epoch := by decide
  next := fun _ => dayNumber_next

theorem CountsDays.eq_dayNumber {count : CivilDate → Int} (h : CountsDays count) {date : CivilDate}
    (valid : date.Valid) : count date = date.dayNumber := by
  have all : ∀ number : Int, count (ofDayNumber number) = number := by
    intro number
    induction number with
    | zero => exact h.epoch
    | succ number ih => rw [ofDayNumber_succ, h.next _ (ofDayNumber_valid _), ih]
    | pred number ih =>
      have step := h.next _ (ofDayNumber_valid (-number - 1))
      rw [← ofDayNumber_succ, Int.sub_add_cancel, ih] at step
      omega
  rw [← all date.dayNumber, ofDayNumber_dayNumber valid]

structure InCalendar (date : CivilDate) : Prop where
  valid : date.Valid
  first : firstYear ≤ date.year
  last : date.year ≤ lastYear

end CivilDate

namespace Day

theorem inCalendar_date (day : Day) : day.date.InCalendar where
  valid := day.date_valid
  first := day.firstYear_le_year
  last := day.year_le_lastYear

/-- The calendar holds whole years, and every date of them. -/
theorem exists_date_eq_iff {date : CivilDate} :
    (∃ day : Day, day.date = date) ↔ date.InCalendar := by
  constructor
  · rintro ⟨day, rfl⟩
    exact day.inCalendar_date
  · intro h
    have low := firstDay_le_dayNumber h.valid h.first
    have high := dayNumber_le_lastDay h.valid h.last
    exact ⟨⟨date.dayNumber, low, high⟩, CivilDate.ofDayNumber_dayNumber h.valid⟩

theorem number_eq_dayNumber (day : Day) : day.number = day.date.dayNumber :=
  (CivilDate.dayNumber_ofDayNumber day.number).symm

theorem number_eq_dayNumber_iff {day : Day} {date : CivilDate} (valid : date.Valid) :
    day.number = date.dayNumber ↔ day.date = date := by
  constructor
  · intro same
    rw [Day.date, same, CivilDate.ofDayNumber_dayNumber valid]
  · rintro rfl
    exact day.number_eq_dayNumber

end Day

end PolicyValues
