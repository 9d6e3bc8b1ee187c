import PolicyValues.Calendar.Basic
import PolicyValues.Fault

/-!
Readings of a local clock, to the millisecond. The calendar in use runs from the first day of year
-262143 to the last day of year 262142; a step that leaves it gives nothing.
-/
namespace PolicyValues

def firstDay : Int := -96465292
def lastDay : Int := 95026236

def firstYear : Int := -262143
def lastYear : Int := 262142

theorem firstDay_eq : firstDay = CivilDate.dayNumber ⟨firstYear, 1, 1⟩ := by decide
theorem lastDay_eq : lastDay = CivilDate.dayNumber ⟨lastYear, 12, 31⟩ := by decide

def millisPerDay : Int := 86400000

structure Day where
  number : Int
  low : firstDay ≤ number
  high : number ≤ lastDay
deriving DecidableEq, Repr

structure TimeOfDay where
  millis : Nat
  bound : millis < 86400000
deriving DecidableEq, Repr

namespace Day

def date (day : Day) : CivilDate := .ofDayNumber day.number

def ofDate? (date : CivilDate) : Option Day :=
  if h : firstDay ≤ date.dayNumber ∧ date.dayNumber ≤ lastDay then
    if date.Valid then some ⟨date.dayNumber, h.1, h.2⟩ else none
  else none

def epoch : Day := ⟨0, by decide, by decide⟩

end Day

namespace TimeOfDay

def midnight : TimeOfDay := ⟨0, by decide⟩

def hour (t : TimeOfDay) : Nat := t.millis / 3600000
def minute (t : TimeOfDay) : Nat := t.millis / 60000 % 60
def second (t : TimeOfDay) : Nat := t.millis / 1000 % 60
def millisecond (t : TimeOfDay) : Nat := t.millis % 1000

def ofFields (hour minute second millisecond : Nat) (hhour : hour ≤ 23) (hminute : minute ≤ 59)
    (hsecond : second ≤ 59) (hmillisecond : millisecond ≤ 999) : TimeOfDay :=
  ⟨3600000 * hour + 60000 * minute + 1000 * second + millisecond, by omega⟩

def chars (t : TimeOfDay) : List Char :=
  Digits.padded 2 t.hour ++ ':' :: Digits.padded 2 t.minute ++ ':' :: Digits.padded 2 t.second ++
    if t.millisecond = 0 then [] else '.' :: Digits.padded 3 t.millisecond

end TimeOfDay

/-- A clock reading, as milliseconds since 1970-01-01T00:00:00 on that clock. -/
structure LocalTime where
  millis : Int
  low : firstDay * millisPerDay ≤ millis
  high : millis < (lastDay + 1) * millisPerDay
deriving DecidableEq, Repr

namespace LocalTime

def ofMillis? (millis : Int) : Option LocalTime :=
  if h : firstDay * millisPerDay ≤ millis ∧ millis < (lastDay + 1) * millisPerDay then
    some ⟨millis, h.1, h.2⟩
  else none

def ofDay (day : Day) (time : TimeOfDay) : LocalTime where
  millis := day.number * millisPerDay + time.millis
  low := by have := day.low; unfold millisPerDay; omega
  high := by have := day.high; have := time.bound; unfold millisPerDay; omega

def day (t : LocalTime) : Day where
  number := t.millis / millisPerDay
  low := by have := t.low; unfold firstDay millisPerDay at *; omega
  high := by have := t.high; unfold lastDay millisPerDay at *; omega

def timeOfDay (t : LocalTime) : TimeOfDay where
  millis := (t.millis % millisPerDay).toNat
  bound := by unfold millisPerDay; omega

def date (t : LocalTime) : CivilDate := t.day.date

theorem ofDay_day_timeOfDay (t : LocalTime) : ofDay t.day t.timeOfDay = t := by
  obtain ⟨millis, low, high⟩ := t
  simp only [ofDay, day, timeOfDay, LocalTime.mk.injEq]
  unfold millisPerDay
  omega

theorem day_ofDay (day : Day) (time : TimeOfDay) : (ofDay day time).day = day := by
  obtain ⟨number, low, high⟩ := day
  have := time.bound
  simp only [LocalTime.day, ofDay, Day.mk.injEq]
  unfold millisPerDay
  omega

theorem timeOfDay_ofDay (day : Day) (time : TimeOfDay) : (ofDay day time).timeOfDay = time := by
  obtain ⟨millis, bound⟩ := time
  simp only [timeOfDay, ofDay, TimeOfDay.mk.injEq]
  unfold millisPerDay
  omega

def shift? (t : LocalTime) (millis : Int) : Option LocalTime := ofMillis? (t.millis + millis)

def addMonths? (t : LocalTime) (months : Int) : Option LocalTime :=
  (Day.ofDate? (t.date.addMonths months)).map fun day => ofDay day t.timeOfDay

end LocalTime

structure ClockFields where
  year : Int
  month : Nat
  day : Nat
  hour : Nat := 0
  minute : Nat := 0
  second : Nat := 0
  millisecond : Nat := 0
deriving DecidableEq, Repr

def ClockFields.check (subject : Subject) (f : ClockFields) : Except ValueError LocalTime :=
  let refuse (reason : RangeFault) : Except ValueError LocalTime := .error (.outOfRange subject reason)
  if f.year < -2 ^ 31 ∨ 2 ^ 31 ≤ f.year then refuse (.year f.year)
  else if f.month < 1 ∨ 12 < f.month then refuse (.month f.month)
  else
    match Day.ofDate? ⟨f.year, f.month, f.day⟩ with
    | none => refuse (.day f.day f.year f.month)
    | some day =>
      if hour : 23 < f.hour then refuse (.hour f.hour)
      else if minute : 59 < f.minute then refuse (.minute f.minute)
      else if second : 59 < f.second then refuse (.second f.second)
      else if millisecond : 999 < f.millisecond then refuse (.millisecond f.millisecond)
      else
        .ok (.ofDay day (.ofFields f.hour f.minute f.second f.millisecond
          (by omega) (by omega) (by omega) (by omega)))

end PolicyValues
