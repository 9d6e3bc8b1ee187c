/-!
The proleptic Gregorian calendar with astronomical years: year 0 is 1 BC. Days are numbered from
1970-01-01. Underneath, years begin in March, so that the leap day is the last day of its year and
the months before it follow one rule.
-/
namespace PolicyValues

structure CivilDate where
  year : Int
  month : Nat
  day : Nat
deriving DecidableEq, Repr

namespace CivilDate

def IsLeap (year : Int) : Prop := year % 4 = 0 ∧ (year % 100 ≠ 0 ∨ year % 400 = 0)

instance (year : Int) : Decidable (IsLeap year) := inferInstanceAs (Decidable (_ ∧ _))

def monthLength (year : Int) (month : Nat) : Nat :=
  if month = 2 then if IsLeap year then 29 else 28
  else if month = 4 ∨ month = 6 ∨ month = 9 ∨ month = 11 then 30
  else 31

structure Valid (date : CivilDate) : Prop where
  month_pos : 1 ≤ date.month
  month_le : date.month ≤ 12
  day_pos : 1 ≤ date.day
  day_le : date.day ≤ monthLength date.year date.month

instance (date : CivilDate) : Decidable date.Valid :=
  decidable_of_iff
    (1 ≤ date.month ∧ date.month ≤ 12 ∧ 1 ≤ date.day ∧ date.day ≤ monthLength date.year date.month)
    ⟨fun ⟨a, b, c, d⟩ => ⟨a, b, c, d⟩, fun ⟨a, b, c, d⟩ => ⟨a, b, c, d⟩⟩

/-- Days from 1 March of year 0 to 1 March of `year`. -/
def marchStart (year : Int) : Int := 365 * year + year / 4 - year / 100 + year / 400

theorem marchStart_succ (year : Int) :
    marchStart (year + 1) = marchStart year + 365 + if IsLeap (year + 1) then 1 else 0 := by
  by_cases leap : IsLeap (year + 1) <;> simp only [leap, if_true, if_false] <;>
    unfold IsLeap at leap <;> unfold marchStart <;> omega

theorem marchStart_mono {a b : Int} (h : a ≤ b) : marchStart a ≤ marchStart b := by
  rcases Int.lt_or_eq_of_le h with lt | rfl
  · unfold marchStart; omega
  · exact Int.le_refl _

def marchYear (days : Int) : Int :=
  let guess := days * 400 / 146097
  if days < marchStart guess then guess - 1
  else if marchStart (guess + 1) ≤ days then guess + 1
  else guess

theorem marchStart_le_and_lt (days : Int) :
    marchStart (marchYear days) ≤ days ∧ days < marchStart (marchYear days + 1) := by
  simp only [marchYear]
  generalize hguess : days * 400 / 146097 = guess
  have below : marchStart (guess - 1) ≤ days := by unfold marchStart; omega
  have above : days < marchStart (guess + 2) := by unfold marchStart; omega
  split
  · exact ⟨below, by rwa [show guess - 1 + 1 = guess by omega]⟩
  · split
    · exact ⟨by assumption, by rwa [show guess + 1 + 1 = guess + 2 by omega]⟩
    · constructor <;> omega

theorem marchYear_eq {days year : Int} (low : marchStart year ≤ days)
    (high : days < marchStart (year + 1)) : marchYear days = year := by
  obtain ⟨lowest, highest⟩ := marchStart_le_and_lt days
  rcases Int.lt_trichotomy (marchYear days) year with lt | eq | gt
  · have := marchStart_mono (show marchYear days + 1 ≤ year by omega)
    omega
  · exact eq
  · have := marchStart_mono (show year + 1 ≤ marchYear days by omega)
    omega

def monthStart (month : Nat) : Nat := (153 * month + 2) / 5

def monthOf (day : Nat) : Nat := (5 * day + 2) / 153

theorem monthStart_monthOf (day : Nat) :
    monthStart (monthOf day) ≤ day ∧ day < monthStart (monthOf day + 1) := by
  unfold monthStart monthOf; omega

theorem monthOf_eq {day month : Nat} (low : monthStart month ≤ day)
    (high : day < monthStart (month + 1)) : monthOf day = month := by
  unfold monthStart at low high; unfold monthOf; omega

def epochShift : Int := 719468

def marchYearOf (date : CivilDate) : Int := if date.month ≤ 2 then date.year - 1 else date.year

def marchDayOf (date : CivilDate) : Nat := monthStart ((date.month + 9) % 12) + date.day - 1

def ofMarch (year : Int) (day : Nat) : CivilDate :=
  let month := monthOf day
  { year := if month < 10 then year else year + 1
    month := (month + 2) % 12 + 1
    day := day - monthStart month + 1 }

/-- Days since 1970-01-01. -/
def dayNumber (date : CivilDate) : Int :=
  marchStart date.marchYearOf + date.marchDayOf - epochShift

def ofDayNumber (number : Int) : CivilDate :=
  let days := number + epochShift
  ofMarch (marchYear days) (days - marchStart (marchYear days)).toNat

theorem monthStart_add_monthLength (year : Int) {month : Nat} (low : 1 ≤ month) (high : month ≤ 12) :
    monthStart ((month + 9) % 12) + monthLength year month =
      if month = 2 then 365 + (if IsLeap year then 1 else 0)
      else monthStart ((month + 9) % 12 + 1) := by
  have cases : month = 1 ∨ month = 2 ∨ month = 3 ∨ month = 4 ∨ month = 5 ∨ month = 6 ∨ month = 7 ∨
      month = 8 ∨ month = 9 ∨ month = 10 ∨ month = 11 ∨ month = 12 := by omega
  rcases cases with rfl | rfl | rfl | rfl | rfl | rfl | rfl | rfl | rfl | rfl | rfl | rfl
  · rfl
  · by_cases leap : IsLeap year <;> simp only [monthLength, leap, if_true, if_false] <;> rfl
  all_goals rfl

theorem marchDayOf_lt {date : CivilDate} (valid : date.Valid) :
    (date.marchDayOf : Int) < marchStart (date.marchYearOf + 1) - marchStart date.marchYearOf := by
  obtain ⟨month_pos, month_le, day_pos, day_le⟩ := valid
  have length := monthStart_add_monthLength date.year month_pos month_le
  have step := marchStart_succ date.marchYearOf
  unfold marchDayOf
  by_cases february : date.month = 2
  · have year : date.marchYearOf + 1 = date.year := by
      unfold marchYearOf; rw [if_pos (by omega)]; omega
    rw [year] at step ⊢
    rw [if_pos february] at length
    split at step <;> simp_all only [if_true, if_false] <;> omega
  · rw [if_neg february] at length
    have last : monthStart ((date.month + 9) % 12 + 1) ≤ 337 := by unfold monthStart; omega
    split at step <;> omega

theorem ofMarch_marchDayOf {date : CivilDate} (valid : date.Valid) :
    ofMarch date.marchYearOf date.marchDayOf = date := by
  obtain ⟨year, month, day⟩ := date
  obtain ⟨month_pos, month_le, day_pos, day_le⟩ := valid
  simp only at month_pos month_le day_pos day_le
  have length := monthStart_add_monthLength year month_pos month_le
  have found : monthOf (marchDayOf ⟨year, month, day⟩) = (month + 9) % 12 := by
    apply monthOf_eq <;> simp only [marchDayOf]
    · omega
    · by_cases february : month = 2
      · subst february
        rw [if_pos rfl] at length
        unfold monthStart at length ⊢
        split at length <;> omega
      · rw [if_neg february] at length
        omega
  simp only [ofMarch, found, CivilDate.mk.injEq]
  refine ⟨?_, by omega, ?_⟩
  · simp only [marchYearOf]
    by_cases early : month ≤ 2
    · simp only [early, if_true, show ¬ (month + 9) % 12 < 10 by omega, if_false]; omega
    · simp only [early, if_false, show (month + 9) % 12 < 10 by omega, if_true]
  · simp only [marchDayOf]; omega

theorem ofDayNumber_dayNumber {date : CivilDate} (valid : date.Valid) :
    ofDayNumber date.dayNumber = date := by
  have bound := marchDayOf_lt valid
  have year : marchYear (date.dayNumber + epochShift) = date.marchYearOf := by
    apply marchYear_eq <;> unfold dayNumber <;> omega
  have day : (date.dayNumber + epochShift - marchStart date.marchYearOf).toNat = date.marchDayOf := by
    unfold dayNumber; omega
  simp only [ofDayNumber, year, day, ofMarch_marchDayOf valid]

theorem ofMarch_valid {year : Int} {day : Nat}
    (bound : (day : Int) < marchStart (year + 1) - marchStart year) : (ofMarch year day).Valid := by
  have step := marchStart_succ year
  have limit : day < 366 := by split at step <;> omega
  obtain ⟨low, high⟩ := monthStart_monthOf day
  have top : monthOf day < 12 := by unfold monthOf; omega
  have length := monthStart_add_monthLength (if monthOf day < 10 then year else year + 1)
    (show 1 ≤ (monthOf day + 2) % 12 + 1 by omega) (by omega)
  have back : ((monthOf day + 2) % 12 + 1 + 9) % 12 = monthOf day := by omega
  rw [back] at length
  refine ⟨?_, ?_, ?_, ?_⟩ <;> simp only [ofMarch]
  · omega
  · omega
  · omega
  · generalize monthLength _ _ = days at length ⊢
    by_cases last : monthOf day = 11
    · have february : (monthOf day + 2) % 12 + 1 = 2 := by omega
      rw [if_pos february, if_neg (show ¬ monthOf day < 10 by omega)] at length
      split at step <;> simp_all only [if_true, if_false] <;> omega
    · rw [if_neg (show ¬ (monthOf day + 2) % 12 + 1 = 2 by omega)] at length
      omega

theorem marchYearOf_ofMarch {year : Int} {day : Nat} (limit : day < 366) :
    (ofMarch year day).marchYearOf = year := by
  have top : monthOf day < 12 := by unfold monthOf; omega
  simp only [marchYearOf, ofMarch]
  by_cases early : monthOf day < 10
  · simp only [early, if_true, show ¬ (monthOf day + 2) % 12 + 1 ≤ 2 by omega, if_false]
  · simp only [early, if_false, show (monthOf day + 2) % 12 + 1 ≤ 2 by omega, if_true]; omega

theorem marchDayOf_ofMarch {year : Int} {day : Nat} (limit : day < 366) :
    (ofMarch year day).marchDayOf = day := by
  obtain ⟨low, high⟩ := monthStart_monthOf day
  have top : monthOf day < 12 := by unfold monthOf; omega
  have back : ((monthOf day + 2) % 12 + 1 + 9) % 12 = monthOf day := by omega
  simp only [marchDayOf, ofMarch, back]
  omega

theorem ofDayNumber_bound (number : Int) :
    ((number + epochShift - marchStart (marchYear (number + epochShift))).toNat : Int) <
      marchStart (marchYear (number + epochShift) + 1) -
        marchStart (marchYear (number + epochShift)) := by
  obtain ⟨low, high⟩ := marchStart_le_and_lt (number + epochShift)
  omega

theorem ofDayNumber_valid (number : Int) : (ofDayNumber number).Valid :=
  ofMarch_valid (ofDayNumber_bound number)

theorem dayNumber_ofDayNumber (number : Int) : (ofDayNumber number).dayNumber = number := by
  obtain ⟨low, high⟩ := marchStart_le_and_lt (number + epochShift)
  have bound := ofDayNumber_bound number
  have step := marchStart_succ (marchYear (number + epochShift))
  have limit : (number + epochShift - marchStart (marchYear (number + epochShift))).toNat < 366 := by
    split at step <;> omega
  simp only [dayNumber, ofDayNumber, marchYearOf_ofMarch limit, marchDayOf_ofMarch limit]
  omega

/-- The day of the month is kept where the month has it, and is the last of the month elsewhere. -/
def addMonths (date : CivilDate) (months : Int) : CivilDate :=
  let index := 12 * date.year + (date.month - 1) + months
  let year := index / 12
  let month := (index % 12).toNat + 1
  ⟨year, month, min date.day (monthLength year month)⟩

end CivilDate

end PolicyValues
