import Mathlib.Order.Monotone.Basic
import PolicyValues.Proofs.Calendar.Succession

/-!
The order of dates. Months follow each other without gaps, so day numbers order dates by their
months first and by the day of the month next. A step of months keeps that order: it moves all
months alike, and dates of one month lose their days at the same place.
-/
namespace PolicyValues

namespace CivilDate

theorem monthBegin_succ (index : Int) :
    monthBegin (index + 1) =
      monthBegin index + monthLength (index / 12) ((index % 12).toNat + 1) := by
  unfold monthBegin
  by_cases december : index % 12 = 11
  · have year : (index + 1) / 12 = index / 12 + 1 := by omega
    have january : (index + 1) % 12 = 0 := by omega
    rw [year, january, december]
    exact dayNumber_newYear _
  · have year : (index + 1) / 12 = index / 12 := by omega
    have month : ((index + 1) % 12).toNat = (index % 12).toNat + 1 := by omega
    rw [year, month]
    exact dayNumber_first_succ _ (Nat.succ_pos _) (by omega)

theorem monthBegin_mono {i j : Int} (h : i ≤ j) : monthBegin i ≤ monthBegin j := by
  refine monotone_int_of_le_succ (fun index => ?_) h
  rw [monthBegin_succ]
  exact Int.le_add_of_nonneg_right (Int.natCast_nonneg _)

theorem monthBegin_le_dayNumber {date : CivilDate} (valid : date.Valid) :
    monthBegin date.monthIndex ≤ date.dayNumber := by
  have day_pos := valid.day_pos
  rw [dayNumber_eq valid]
  omega

theorem dayNumber_lt_monthBegin_succ {date : CivilDate} (valid : date.Valid) :
    date.dayNumber < monthBegin (date.monthIndex + 1) := by
  have day_le := valid.day_le
  rw [dayNumber_eq valid, monthBegin_succ, monthIndex_ediv valid, monthIndex_emod valid]
  omega

theorem dayNumber_lt_of_monthIndex_lt {a b : CivilDate} (ha : a.Valid) (hb : b.Valid)
    (h : a.monthIndex < b.monthIndex) : a.dayNumber < b.dayNumber :=
  calc a.dayNumber
    _ < monthBegin (a.monthIndex + 1) := dayNumber_lt_monthBegin_succ ha
    _ ≤ monthBegin b.monthIndex := monthBegin_mono (Int.add_one_le_of_lt h)
    _ ≤ b.dayNumber := monthBegin_le_dayNumber hb

theorem dayNumber_le_iff {a b : CivilDate} (ha : a.Valid) (hb : b.Valid) :
    a.dayNumber ≤ b.dayNumber ↔
      a.monthIndex < b.monthIndex ∨ a.monthIndex = b.monthIndex ∧ a.day ≤ b.day := by
  rcases Int.lt_trichotomy a.monthIndex b.monthIndex with earlier | same | later
  · have days := dayNumber_lt_of_monthIndex_lt ha hb earlier
    omega
  · rw [dayNumber_eq ha, dayNumber_eq hb, same]
    omega
  · have days := dayNumber_lt_of_monthIndex_lt hb ha later
    omega

theorem dayNumber_addMonths_le {a b : CivilDate} (ha : a.Valid) (hb : b.Valid)
    (h : a.dayNumber ≤ b.dayNumber) (months : Int) :
    (a.addMonths months).dayNumber ≤ (b.addMonths months).dayNumber := by
  rw [dayNumber_le_iff (addMonths_valid ha months) (addMonths_valid hb months),
    monthIndex_addMonths, monthIndex_addMonths]
  rcases (dayNumber_le_iff ha hb).1 h with earlier | ⟨same, day⟩
  · exact .inl (Int.add_lt_add_right earlier months)
  · refine .inr ⟨congrArg (· + months) same, ?_⟩
    -- Both reach one month, whose length cuts both days.
    have year : (a.addMonths months).year = (b.addMonths months).year :=
      congrArg (fun index => (index + months) / 12) same
    have month : (a.addMonths months).month = (b.addMonths months).month :=
      congrArg (fun index => ((index + months) % 12).toNat + 1) same
    rw [day_addMonths, day_addMonths, year, month]
    omega

end CivilDate

end PolicyValues
