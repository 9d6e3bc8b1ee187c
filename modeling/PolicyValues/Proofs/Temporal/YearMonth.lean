import Mathlib.Order.Basic
import PolicyValues.Proofs.Duration.Totals
import PolicyValues.Proofs.Temporal.Moves
import PolicyValues.Proofs.Temporal.RoundTrip

/-!
Moves by durations of years and months. Years step first, so a move is one step of the total from
where the years alone lead, and equal durations lead apart only from a 29 February that the years of
one of them cut to the 28th.
-/
namespace PolicyValues

namespace YearMonthDuration

inductive Made : YearMonthDuration → Prop
  | ofDuration {u : Duration} {d : YearMonthDuration} (h : YearMonthDuration.ofDuration u = .ok d) :
    Made d
  | new {negative : Bool} {years months : UInt64} {d : YearMonthDuration}
    (h : YearMonthDuration.new negative years months = .ok d) : Made d
  | parse {text : String} {d : YearMonthDuration} (h : YearMonthDuration.parse text = .ok d) : Made d
  | ofTotalMonths (total : Int64) : Made (YearMonthDuration.ofTotalMonths total)
  | canonical {d : YearMonthDuration} (h : Made d) : Made d.canonical
  | negate {d : YearMonthDuration} (h : Made d) : Made d.negate

/-- The total is that of the duration inside, which has no smaller components. -/
structure Consistent (d : YearMonthDuration) : Prop where
  yearMonth : d.duration.hasDayTime = false
  total : d.totalMonths.toInt = d.duration.sign * d.duration.monthCount

theorem consistent_of_ofDuration {u : Duration} {d : YearMonthDuration}
    (h : ofDuration u = .ok d) : d.Consistent := by
  unfold ofDuration at h
  split at h
  · simp only [reduceCtorEq] at h
  · rename_i yearMonth
    obtain ⟨months, total, rfl⟩ := map_eq_ok_iff.1 h
    refine ⟨Bool.eq_false_iff.2 yearMonth, ?_⟩
    rw [(Duration.toInt_of_totalMonths total).2, Duration.monthCount, Nat.mul_comm]

theorem consistent_ofTotalMonths (total : Int64) : (ofTotalMonths total).Consistent := by
  have years := years_canonical (ofTotalMonths total)
  have months := months_canonical (ofTotalMonths total)
  have negative := negative_canonical (ofTotalMonths total)
  have same : (ofTotalMonths total).canonical = ofTotalMonths total := rfl
  refine ⟨rfl, ?_⟩
  rw [same] at years months negative
  rw [Duration.monthCount, Duration.sign, years, months, negative, Nat.div_add_mod]
  simp only [decide_eq_true_eq]
  split <;> omega

theorem Made.consistent {d : YearMonthDuration} (h : d.Made) : d.Consistent := by
  cases h with
  | ofDuration h => exact consistent_of_ofDuration h
  | new h => exact consistent_of_ofDuration h
  | parse h =>
    obtain ⟨u, _, rest⟩ := bind_eq_ok_iff.1 h
    split at rest
    · simp only [reduceCtorEq] at rest
    · exact consistent_of_ofDuration rest
  | ofTotalMonths total => exact consistent_ofTotalMonths total
  | canonical h => exact consistent_ofTotalMonths _
  | negate h => exact consistent_ofTotalMonths _

def signedYears (d : YearMonthDuration) : Int := d.duration.sign * d.duration.years.toNat

theorem Consistent.fits {d : YearMonthDuration} (h : d.Consistent) :
    d.duration.years.toNat * 12 < 2 ^ 64 := by
  have low := d.totalMonths.le_toInt
  have high := d.totalMonths.toInt_lt
  rw [h.total, Duration.monthCount] at low high
  rcases d.duration.sign_eq with sign | sign <;> rw [sign] at low high <;> omega

end YearMonthDuration

namespace LocalTime
open CivilDate

theorem onDate?_isSome_iff (t : LocalTime) {date : CivilDate} (valid : date.Valid) :
    (t.onDate? date).isSome = true ↔ firstYear ≤ date.year ∧ date.year ≤ lastYear := by
  rw [onDate?, Option.isSome_map, Day.ofDate?_isSome_iff valid]

/-- Years of which just one loses the 29 February that a clock shows, where the total of months in
one step reaches a 29th. -/
def Divided (t : LocalTime) (years years' months : Int) : Prop :=
  ¬ (t.date.LosesLeapDay years ↔ t.date.LosesLeapDay years') ∧
    ∃ reached ∈ t.addMonths? months, reached.date.day = 29

instance (t : LocalTime) (years years' months : Int) : Decidable (t.Divided years years' months) :=
  inferInstanceAs (Decidable (_ ∧ ∃ reached ∈ _, _))

theorem addMonths_from_28 (date : CivilDate) (months : Int) :
    ({ date with day := 28 } : CivilDate).addMonths months =
      { date.addMonths months with day := 28 } := by
  have kept := Nat.min_eq_left
    (le_monthLength (date.addMonths months).year (date.addMonths months).month)
  exact congrArg (CivilDate.mk _ _) kept

theorem onDate?_from_28_eq_iff {t : LocalTime} (leap_day : t.date.day = 29) (months : Int) :
    t.onDate? (({ t.date with day := 28 } : CivilDate).addMonths months) = t.addMonths? months ↔
      ¬ ∃ reached ∈ t.addMonths? months, reached.date.day = 29 := by
  have valid := addMonths_valid t.date_valid months
  have day := day_addMonths t.date months
  have long := le_monthLength (t.date.addMonths months).year (t.date.addMonths months).month
  rw [addMonths_from_28]
  by_cases short : (t.date.addMonths months).day = 28
  · have same : ({ t.date.addMonths months with day := 28 } : CivilDate) =
        t.date.addMonths months := by
      rw [← short]
    rw [same, ← addMonths?_eq]
    refine iff_of_true rfl ?_
    rintro ⟨reached, found, last⟩
    rw [(onDate?_eq_some_iff.1 found).1, short] at last
    exact absurd last (by decide)
  · have longer : (t.date.addMonths months).day = 29 := by omega
    have valid' : ({ t.date.addMonths months with day := 28 } : CivilDate).Valid :=
      ⟨valid.month_pos, valid.month_le, Nat.succ_pos 27, long⟩
    constructor
    · rintro same ⟨reached, found, last⟩
      have sooner := (onDate?_eq_some_iff.1 (same.trans found)).1
      rw [sooner] at last
      exact absurd last (show ¬ 28 = 29 by decide)
    · intro unreached
      cases found : t.addMonths? months with
      | some reached =>
        refine absurd ⟨reached, found, ?_⟩ unreached
        rw [(onDate?_eq_some_iff.1 found).1, longer]
      | none =>
        -- Both dates lie in one month, which is outside the calendar.
        refine Option.not_isSome_iff_eq_none.1 fun inside => ?_
        rw [t.onDate?_isSome_iff valid', ← t.onDate?_isSome_iff valid, ← addMonths?_eq,
          found] at inside
        exact absurd inside (by decide)

theorem onDate?_throughYears_eq_iff (t : LocalTime) (years years' months : Int) :
    t.onDate? ((t.date.throughYears years).addMonths months) =
        t.onDate? ((t.date.throughYears years').addMonths months) ↔
      ¬ t.Divided years years' months := by
  have through (y : Int) : ¬ t.date.LosesLeapDay y → t.date.throughYears y = t.date :=
    throughYears_of_keeps t.date_valid
  unfold Divided
  by_cases loses : t.date.LosesLeapDay years <;> by_cases loses' : t.date.LosesLeapDay years'
  · simp only [throughYears_of_loses, loses, loses', not_true_eq_false, false_and,
      not_false_eq_true]
  · simp only [throughYears_of_loses loses, through years' loses', loses, loses', iff_false,
      not_true_eq_false, not_false_eq_true, true_and, ← addMonths?_eq]
    exact onDate?_from_28_eq_iff loses.2.1 months
  · simp only [throughYears_of_loses loses', through years loses, loses, loses', iff_true,
      not_false_eq_true, true_and, ← addMonths?_eq]
    rw [eq_comm]
    exact onDate?_from_28_eq_iff loses'.2.1 months
  · simp only [through years loses, through years' loses', loses, loses', not_true_eq_false,
      false_and, not_false_eq_true]

theorem onDate?_throughYears_isSome (t : LocalTime) (years months : Int) :
    (t.onDate? ((t.date.throughYears years).addMonths months)).isSome =
      (t.addMonths? months).isSome := by
  have valid := addMonths_valid t.date_valid months
  have valid' := addMonths_valid (throughYears_valid t.date_valid years) months
  rw [Bool.eq_iff_iff, addMonths?_eq, t.onDate?_isSome_iff valid', t.onDate?_isSome_iff valid]
  rfl

end LocalTime

structure AgreeUnless {α : Type} (exception : Prop) (x y : Except ValueError α) : Prop where
  isOk_eq : x.isOk = y.isOk
  eq_iff : x = y ↔ ¬ exception

theorem AgreeUnless.map {α β : Type} {exception : Prop} {x y : Except ValueError α}
    (h : AgreeUnless exception x y) {f : α → β}
    (inj : ∀ a b, x = .ok a → y = .ok b → f a = f b → a = b) :
    AgreeUnless exception (x.map f) (y.map f) := by
  obtain ⟨isOk_eq, eq_iff⟩ := h
  refine ⟨?_, ?_⟩
  · cases x <;> cases y <;> exact isOk_eq
  · rw [← eq_iff]
    refine ⟨fun same => ?_, fun same => by rw [same]⟩
    cases x with
    | error e =>
      cases y with
      | error e' => exact congrArg Except.error (Except.error.inj same)
      | ok b => simp only [Except.map, reduceCtorEq] at same
    | ok a =>
      cases y with
      | error e' => simp only [Except.map, reduceCtorEq] at same
      | ok b => exact congrArg Except.ok (inj a b rfl rfl (Except.ok.inj same))

namespace DateTime

theorem move_of_yearMonth {u : Duration} (yearMonth : u.hasDayTime = false) {sign : Int}
    (unit : sign = 1 ∨ sign = -1) (d : DateTime) :
    d.move u sign = (stepMonths u sign d.wall).map ({ d with wall := · }) := by
  have still (wall : LocalTime) : shiftAll sign u.clockAmounts wall = .ok wall := by
    rw [shiftAll_eq_ok_iff unit, u.sum_clockAmounts, u.clockMillis_of_yearMonth yearMonth,
      Int.natCast_zero, Int.mul_zero, Int.add_zero]
  rw [move_eq]
  simp only [still]
  cases stepMonths u sign d.wall with
  | error e => rfl
  | ok stepped => rfl

theorem move_of_consistent {u : YearMonthDuration} (h : u.Consistent) {direction : Int}
    (unit : direction = 1 ∨ direction = -1) (d : DateTime) :
    d.move u.duration (direction * u.duration.sign) =
      (reaching "months" (d.wall.onDate?
        ((d.wall.date.throughYears (direction * u.signedYears)).addMonths
          (direction * u.totalMonths.toInt)))).map ({ d with wall := · }) := by
  have unit' : direction * u.duration.sign = 1 ∨ direction * u.duration.sign = -1 := by
    rcases unit with rfl | rfl <;> rcases u.duration.sign_eq with sign | sign <;> rw [sign] <;>
      decide
  rw [move_of_yearMonth h.yearMonth unit', stepMonths_eq h.fits unit', h.total,
    YearMonthDuration.signedYears, Int.mul_assoc, Int.mul_assoc]

theorem map_reaching_eq_iff {d : DateTime} {field : String} {wall wall' : Option LocalTime} :
    (reaching field wall).map ({ d with wall := · }) =
        (reaching field wall').map ({ d with wall := · }) ↔ wall = wall' := by
  cases wall <;> cases wall' <;>
    simp only [reaching, Option.elim_none, Option.elim_some, Except.map, reduceCtorEq,
      Except.ok.injEq, DateTime.mk.injEq, and_true, Option.some.injEq]

theorem isOk_map_reaching (d : DateTime) (field : String) (wall : Option LocalTime) :
    ((reaching field wall).map ({ d with wall := · })).isOk = wall.isSome := by
  cases wall <;> rfl

section
variable {a b : YearMonthDuration} (ha : a.Consistent) (hb : b.Consistent) (equal : a.Equal b)
  {direction : Int} (unit : direction = 1 ∨ direction = -1)
include ha hb equal unit

theorem move_agrees (d : DateTime) :
    AgreeUnless
      (d.wall.Divided (direction * a.signedYears) (direction * b.signedYears)
        (direction * a.totalMonths.toInt))
      (d.move a.duration (direction * a.duration.sign))
      (d.move b.duration (direction * b.duration.sign)) := by
  have total : b.totalMonths = a.totalMonths := equal.symm
  rw [move_of_consistent ha unit, move_of_consistent hb unit, total]
  refine ⟨?_, ?_⟩
  · rw [isOk_map_reaching, isOk_map_reaching, LocalTime.onDate?_throughYears_isSome,
      LocalTime.onDate?_throughYears_isSome]
  · rw [map_reaching_eq_iff]
    exact d.wall.onDate?_throughYears_eq_iff _ _ _

theorem move_date_agrees (d : Date) :
    AgreeUnless
      (d.wall.Divided (direction * a.signedYears) (direction * b.signedYears)
        (direction * a.totalMonths.toInt))
      ((d.toDateTime.move a.duration (direction * a.duration.sign)).map Date.ofDateTime)
      ((d.toDateTime.move b.duration (direction * b.duration.sign)).map Date.ofDateTime) := by
  have midnight {c : YearMonthDuration} (hc : c.Consistent) {e : DateTime}
      (moved : d.toDateTime.move c.duration (direction * c.duration.sign) = .ok e) :
      e.wall.timeOfDay = .midnight := by
    rw [move_of_consistent hc unit] at moved
    obtain ⟨wall, reached, rfl⟩ := map_eq_ok_iff.1 moved
    rw [reaching_eq_ok_iff, LocalTime.onDate?_eq_some_iff] at reached
    exact reached.2.trans d.midnight
  refine (move_agrees ha hb equal unit d.toDateTime).map fun x y hx hy same => ?_
  have kept := Date.toDateTime_ofDateTime (midnight ha hx)
  rw [same, Date.toDateTime_ofDateTime (midnight hb hy)] at kept
  exact kept.symm

end

end DateTime

/-- Equal durations of years and months act equally on instants and dates, but for a 29 February
that the years of just one of them cut, on the way to a 29th. -/
theorem YearMonthDuration.equal_agree_unless_divided :
    ∀ a b : YearMonthDuration, a.Made → b.Made → a.Equal b →
      (∀ d : DateTime,
        AgreeUnless (d.wall.Divided a.signedYears b.signedYears a.totalMonths.toInt)
          (d.addYearMonth a) (d.addYearMonth b) ∧
        AgreeUnless (d.wall.Divided (-a.signedYears) (-b.signedYears) (-a.totalMonths.toInt))
          (d.subYearMonth a) (d.subYearMonth b)) ∧
      (∀ d : Date,
        AgreeUnless (d.wall.Divided a.signedYears b.signedYears a.totalMonths.toInt)
          (d.addYearMonth a) (d.addYearMonth b) ∧
        AgreeUnless (d.wall.Divided (-a.signedYears) (-b.signedYears) (-a.totalMonths.toInt))
          (d.subYearMonth a) (d.subYearMonth b)) := by
  intro a b madeA madeB equal
  have ha := madeA.consistent
  have hb := madeB.consistent
  refine ⟨fun d => ⟨?_, ?_⟩, fun d => ⟨?_, ?_⟩⟩
  · have forth := DateTime.move_agrees ha hb equal (.inl rfl) d
    simp only [Int.one_mul] at forth
    exact forth
  · have back := DateTime.move_agrees ha hb equal (.inr rfl) d
    simp only [Int.neg_mul, Int.one_mul] at back
    exact back
  · have forth := DateTime.move_date_agrees ha hb equal (.inl rfl) d
    simp only [Int.one_mul] at forth
    exact forth
  · have back := DateTime.move_date_agrees ha hb equal (.inr rfl) d
    simp only [Int.neg_mul, Int.one_mul] at back
    exact back

theorem YearMonthDuration.fourteen_months_agree :
    let a : YearMonthDuration := ⟨.signed false { months := 14 }, 14⟩
    let b : YearMonthDuration := ⟨.signed false { years := 1, months := 2 }, 14⟩
    let d : DateTime := ⟨⟨1327968000000, by decide, by decide⟩, none⟩
    let leapDay : DateTime := ⟨⟨1330473600000, by decide, by decide⟩, none⟩
    (a.Made ∧ b.Made ∧ a.Equal b) ∧
      (d.text = "2012-01-31T00:00:00" ∧ d.addYearMonth a = d.addYearMonth b) ∧
      leapDay.text = "2012-02-29T00:00:00" ∧ leapDay.addYearMonth a ≠ leapDay.addYearMonth b := by
  intro a b d leapDay
  have madeA : a.Made := .ofDuration (show ofDuration a.duration = .ok a by decide +kernel)
  have madeB : b.Made := .ofDuration (show ofDuration b.duration = .ok b by decide +kernel)
  have agree := (equal_agree_unless_divided a b madeA madeB rfl).1
  refine ⟨⟨madeA, madeB, rfl⟩, ⟨by decide +kernel, ?_⟩, by decide +kernel, ?_⟩
  · exact (agree d).1.eq_iff.2 (by decide +kernel)
  · exact fun same => (agree leapDay).1.eq_iff.1 same (by decide +kernel)

def SameOutcome {α : Type} (x y : Except ValueError α) : Prop :=
  x.isOk = false ∧ y.isOk = false ∨ x = y

theorem YearMonthDuration.leap_day_divides :
    ¬ ∀ a b : YearMonthDuration, a.Made → b.Made → a.Equal b →
      (∀ d : DateTime, SameOutcome (d.addYearMonth a) (d.addYearMonth b) ∧
        SameOutcome (d.subYearMonth a) (d.subYearMonth b)) ∧
      (∀ d : Date, SameOutcome (d.addYearMonth a) (d.addYearMonth b) ∧
        SameOutcome (d.subYearMonth a) (d.subYearMonth b)) := by
  intro alike
  let a : YearMonthDuration := ⟨.signed false { months := 14 }, 14⟩
  let b : YearMonthDuration := ⟨.signed false { years := 1, months := 2 }, 14⟩
  let leapDay : DateTime := ⟨⟨1330473600000, by decide, by decide⟩, none⟩
  have madeA : a.Made := .ofDuration (show ofDuration a.duration = .ok a by decide +kernel)
  have madeB : b.Made := .ofDuration (show ofDuration b.duration = .ok b by decide +kernel)
  have later : leapDay.addYearMonth a = .ok ⟨⟨1367193600000, by decide, by decide⟩, none⟩ := by
    decide +kernel
  have sooner : leapDay.addYearMonth b = .ok ⟨⟨1367107200000, by decide, by decide⟩, none⟩ := by
    decide +kernel
  have same := ((alike a b madeA madeB rfl).1 leapDay).1
  rw [later, sooner] at same
  rcases same with ⟨failed, _⟩ | equal
  · exact absurd failed (by decide)
  · exact absurd equal (by decide)

end PolicyValues
