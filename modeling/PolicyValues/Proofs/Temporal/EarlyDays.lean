import PolicyValues.Proofs.Temporal.YearMonth

/-!
Moves by years and months from a day that every month has. Nothing is cut off there, so such a move
is a step along the count of months, which steps undo and add up as numbers do, also over year 0.
-/
namespace PolicyValues

namespace CivilDate

theorem eq_of_monthIndex {a b : CivilDate} (ha : a.Valid) (hb : b.Valid)
    (index : a.monthIndex = b.monthIndex) (day : a.day = b.day) : a = b := by
  have year : a.year = b.year := by
    rw [← monthIndex_ediv ha, ← monthIndex_ediv hb, index]
  have month : a.month = b.month := by
    rw [← monthIndex_emod ha, ← monthIndex_emod hb, index]
  obtain ⟨_, _, _⟩ := a
  rw [CivilDate.mk.injEq]
  exact ⟨year, month, day⟩

theorem day_addMonths_of_early {date : CivilDate} (early : date.day ≤ 28) (months : Int) :
    (date.addMonths months).day = date.day := by
  rw [day_addMonths]
  exact Nat.min_eq_left (Nat.le_trans early (le_monthLength _ _))

theorem keeps_of_early {date : CivilDate} (early : date.day ≤ 28) (years : Int) :
    ¬ date.LosesLeapDay years := by
  rintro ⟨_, day, _⟩
  omega

theorem eq_addMonths_iff_of_early {date moved : CivilDate} (valid : date.Valid)
    (valid' : moved.Valid) (early : date.day ≤ 28) (months : Int) :
    moved = date.addMonths months ↔
      moved.monthIndex = date.monthIndex + months ∧ moved.day = date.day := by
  constructor
  · rintro rfl
    exact ⟨monthIndex_addMonths date months, day_addMonths_of_early early months⟩
  · rintro ⟨index, day⟩
    apply eq_of_monthIndex valid' (addMonths_valid valid months)
    · rw [index, monthIndex_addMonths]
    · rw [day, day_addMonths_of_early early]

end CivilDate

namespace DateTime
open CivilDate

structure MonthsOn (d e : DateTime) (months : Int) : Prop where
  index : e.wall.date.monthIndex = d.wall.date.monthIndex + months
  day : e.wall.date.day = d.wall.date.day
  time : e.wall.timeOfDay = d.wall.timeOfDay
  zone : e.zone = d.zone

namespace MonthsOn
variable {d e f : DateTime} {months months' : Int}

theorem back (h : MonthsOn d e months) : MonthsOn e d (-months) where
  index := by rw [h.index, Int.add_neg_cancel_right]
  day := h.day.symm
  time := h.time.symm
  zone := h.zone.symm

theorem trans (h : MonthsOn d e months) (h' : MonthsOn e f months') :
    MonthsOn d f (months + months') where
  index := by rw [h'.index, h.index, Int.add_assoc]
  day := h'.day.trans h.day
  time := h'.time.trans h.time
  zone := h'.zone.trans h.zone

theorem early (h : MonthsOn d e months) (early : d.wall.date.day ≤ 28) : e.wall.date.day ≤ 28 :=
  h.day ▸ early

end MonthsOn

section
variable {u : YearMonthDuration} (h : u.Consistent) {direction : Int}
  (unit : direction = 1 ∨ direction = -1) {d : DateTime} (early : d.wall.date.day ≤ 28)
include h unit early

theorem move_of_early :
    d.move u.duration (direction * u.duration.sign) =
      (reaching "months" (d.wall.addMonths? (direction * u.totalMonths.toInt))).map
        ({ d with wall := · }) := by
  rw [move_of_consistent h unit, throughYears_of_keeps d.wall.date_valid (keeps_of_early early _),
    LocalTime.addMonths?_eq]

theorem move_eq_ok_iff_of_early {e : DateTime} :
    d.move u.duration (direction * u.duration.sign) = .ok e ↔
      MonthsOn d e (direction * u.totalMonths.toInt) := by
  rw [move_of_early h unit early, map_eq_ok_iff]
  simp only [reaching_eq_ok_iff, LocalTime.addMonths?_eq, LocalTime.onDate?_eq_some_iff]
  constructor
  · rintro ⟨wall, ⟨date, time⟩, rfl⟩
    obtain ⟨index, day⟩ := (eq_addMonths_iff_of_early d.wall.date_valid wall.date_valid early _).1
      date
    exact ⟨index, day, time, rfl⟩
  · intro moved
    refine ⟨e.wall, ⟨?_, moved.time⟩, ?_⟩
    · exact (eq_addMonths_iff_of_early d.wall.date_valid e.wall.date_valid early _).2
        ⟨moved.index, moved.day⟩
    · rw [← moved.zone]

theorem exists_move_iff_of_early :
    (∃ e, d.move u.duration (direction * u.duration.sign) = .ok e) ↔
      firstYear ≤ (d.wall.date.monthIndex + direction * u.totalMonths.toInt) / 12 ∧
        (d.wall.date.monthIndex + direction * u.totalMonths.toInt) / 12 ≤ lastYear := by
  have years := d.wall.addMonths?_isSome_iff (direction * u.totalMonths.toInt)
  rw [move_of_early h unit early]
  cases stepped : d.wall.addMonths? (direction * u.totalMonths.toInt) with
  | none =>
    rw [stepped, Option.isSome_none] at years
    simp only [reaching, Option.elim_none, Except.map, reduceCtorEq, exists_false, false_iff] at *
    omega
  | some wall =>
    rw [stepped, Option.isSome_some] at years
    simp only [reaching, Option.elim_some, Except.map, Except.ok.injEq, exists_eq', true_iff] at *
    omega

end

/-- From a day up to the 28th, adding years and months succeeds exactly where the count of months
stays in the years of the calendar, and moves that count alone. Subtracting undoes it, and what two
durations add in turn any duration of their total adds at once. -/
theorem early_day_moves_by_count (d : DateTime) (early : d.wall.date.day ≤ 28)
    (a : YearMonthDuration) (made : a.Made) :
    ((∃ e, d.addYearMonth a = .ok e) ↔
      -262143 ≤ (d.wall.date.monthIndex + a.totalMonths.toInt) / 12 ∧
        (d.wall.date.monthIndex + a.totalMonths.toInt) / 12 ≤ 262142) ∧
    (∀ e, d.addYearMonth a = .ok e ↔ MonthsOn d e a.totalMonths.toInt) ∧
    (∀ e, d.addYearMonth a = .ok e → e.subYearMonth a = .ok d) ∧
    ∀ (b c : YearMonthDuration) (e f : DateTime), b.Made → c.Made →
      c.totalMonths.toInt = a.totalMonths.toInt + b.totalMonths.toInt →
      d.addYearMonth a = .ok e → e.addYearMonth b = .ok f → d.addYearMonth c = .ok f := by
  have added {u : YearMonthDuration} (made : u.Made) {d e : DateTime}
      (early : d.wall.date.day ≤ 28) :
      d.addYearMonth u = .ok e ↔ MonthsOn d e u.totalMonths.toInt := by
    have moved := move_eq_ok_iff_of_early made.consistent (.inl rfl) early (e := e)
    rwa [Int.one_mul, Int.one_mul] at moved
  refine ⟨?_, fun e => added made early, fun e forth => ?_,
    fun b c e f hb hc total first second => ?_⟩
  · have exists_iff := exists_move_iff_of_early made.consistent (.inl rfl) early
    rwa [Int.one_mul, Int.one_mul] at exists_iff
  · have on := (added made early).1 forth
    have moved := move_eq_ok_iff_of_early made.consistent (.inr rfl) (on.early early) (e := d)
    rw [Int.neg_mul, Int.neg_mul, Int.one_mul, Int.one_mul] at moved
    exact moved.2 on.back
  · have on := (added made early).1 first
    have further := (added hb (on.early early)).1 second
    rw [added hc early, total]
    exact on.trans further

theorem year_zero_passed_and_regained :
    let d : DateTime := ⟨⟨-62170113600000, by decide, by decide⟩, some .utc⟩
    let e : DateTime := ⟨⟨-62133220800000, by decide, by decide⟩, some .utc⟩
    let f : DateTime := ⟨⟨-62138491200000, by decide, by decide⟩, some .utc⟩
    let a : YearMonthDuration := ⟨.signed false { months := 14 }, 14⟩
    let b : YearMonthDuration := ⟨.signed true { months := 2 }, -2⟩
    let c : YearMonthDuration := ⟨.signed false { years := 1 }, 12⟩
    let far : YearMonthDuration := ⟨.signed false { years := 262142, months := 24 }, 3145728⟩
    (d.text = "-0001-11-28T12:00:00Z" ∧ e.text = "0001-01-28T12:00:00Z" ∧
        f.text = "0000-11-28T12:00:00Z" ∧ d.wall.date.day ≤ 28) ∧
      (a.Made ∧ b.Made ∧ c.Made ∧ far.Made) ∧
      (d.addYearMonth a = .ok e ∧ MonthsOn d e 14 ∧ e.subYearMonth a = .ok d) ∧
      (c.totalMonths.toInt = a.totalMonths.toInt + b.totalMonths.toInt ∧
        e.addYearMonth b = .ok f ∧ d.addYearMonth c = .ok f) ∧
      ¬ ∃ e, d.addYearMonth far = .ok e := by
  intro d e f a b c far
  have early : d.wall.date.day ≤ 28 := by decide +kernel
  have made {u : YearMonthDuration} (h : YearMonthDuration.ofDuration u.duration = .ok u) :
      u.Made := .ofDuration h
  have madeA : a.Made := made (by decide +kernel)
  have madeB : b.Made := made (by decide +kernel)
  have madeC : c.Made := made (by decide +kernel)
  have madeFar : far.Made := made (by decide +kernel)
  have first : d.addYearMonth a = .ok e := by decide +kernel
  have second : e.addYearMonth b = .ok f := by decide +kernel
  have total : c.totalMonths.toInt = a.totalMonths.toInt + b.totalMonths.toInt := by decide
  obtain ⟨_, shown, undone, at_once⟩ := early_day_moves_by_count d early a madeA
  obtain ⟨within, _⟩ := early_day_moves_by_count d early far madeFar
  refine ⟨⟨by decide +kernel, by decide +kernel, by decide +kernel, early⟩,
    ⟨madeA, madeB, madeC, madeFar⟩, ⟨first, (shown e).1 first, undone e first⟩,
    ⟨total, second, at_once b c e f madeB madeC total first second⟩, mt within.1 ?_⟩
  decide +kernel

end DateTime

end PolicyValues
