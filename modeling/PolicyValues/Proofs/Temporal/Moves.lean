import Mathlib.Algebra.GroupWithZero.Nat
import PolicyValues.DateAndTime
import PolicyValues.Proofs.Calendar.Months
import PolicyValues.Proofs.Text.Digits

/-!
What a move by a duration does. Its years and months step along the calendar, and all its smaller
components together shift the clock by one amount of time.
-/
namespace PolicyValues

def DateTime.millisIn (amounts : List (DateTime.ClockUnit × Nat)) : Nat :=
  (amounts.map fun amount => amount.2 * amount.1.millis).sum

namespace Duration

theorem sign_eq (u : Duration) : u.sign = 1 ∨ u.sign = -1 := by
  unfold sign
  split
  · exact .inr rfl
  · exact .inl rfl

theorem neg_sign_eq (u : Duration) : -u.sign = 1 ∨ -u.sign = -1 := by
  rcases u.sign_eq with sign | sign <;> rw [sign] <;> decide

def monthCount (u : Duration) : Nat := 12 * u.years.toNat + u.months.toNat

theorem mul_monthCount (u : Duration) (sign : Int) :
    sign * (u.monthCount : Int) = 12 * (sign * u.years.toNat) + sign * u.months.toNat := by
  rw [monthCount, Int.natCast_add, Int.natCast_mul, Int.mul_add, Int.mul_left_comm]
  rfl

def clockMillis (u : Duration) : Nat :=
  u.days.toNat * 86400000 + u.hours.toNat * 3600000 + u.minutes.toNat * 60000 +
    u.wholeSeconds * 1000 + u.millis

theorem clockMillis_of_yearMonth (u : Duration) (yearMonth : u.hasDayTime = false) :
    u.clockMillis = 0 := by
  simp only [Magnitudes.hasDayTime, Magnitudes.hasTime, Bool.or_eq_false_iff, bne_eq_false_iff_eq,
    Bool.not_eq_false', Decimal.isZero, beq_iff_eq] at yearMonth
  obtain ⟨days, ⟨hours, minutes⟩, seconds⟩ := yearMonth
  have whole : u.wholeSeconds = 0 := by
    simp only [wholeSeconds, Decimal.whole, seconds, Nat.zero_div, Nat.zero_min]
  have millis : u.millis = 0 := by
    simp only [millis, Decimal.fraction, Decimal.thousandths, seconds, Nat.zero_mod,
      Nat.zero_mul, Nat.zero_div]
  simp only [clockMillis, days, hours, minutes, whole, millis, UInt64.toNat_zero,
    Nat.zero_mul]

def clockAmounts (u : Duration) : List (DateTime.ClockUnit × Nat) :=
  [(.days, u.days.toNat), (.hours, u.hours.toNat), (.minutes, u.minutes.toNat),
    (.seconds, u.wholeSeconds), (.milliseconds, u.millis)]

theorem sum_clockAmounts (u : Duration) :
    DateTime.millisIn u.clockAmounts = u.clockMillis := by
  -- The amounts are variables here, as products with large factors do not unfold.
  have five (a b c d e : Nat) : List.sum [a, b, c, d, e * 1] = a + b + c + d + e := by
    simp only [List.sum_cons, List.sum_nil, Nat.add_zero, Nat.add_assoc, Nat.mul_one]
  exact five _ _ _ _ _

end Duration

namespace LocalTime

theorem millis_sub_lt (t u : LocalTime) : t.millis - u.millis < 2 ^ 63 := by
  have low := u.low
  have high := t.high
  unfold firstDay lastDay millisPerDay at *
  omega

/-- Months that 32 bits cannot count leave the calendar. -/
theorem addMonths?_of_long (t : LocalTime) {months : Int} (long : 2 ^ 32 ≤ months.natAbs) :
    t.addMonths? months = none := by
  have start := t.index_bounds
  have within := t.addMonths?_isSome_iff months
  rw [← Option.isNone_iff_eq_none, ← Option.not_isSome, Bool.not_eq_true', Bool.eq_false_iff]
  intro found
  have finish := within.1 found
  unfold firstYear lastYear at start finish
  omega

/-- Milliseconds that 63 bits and a sign cannot count leave the calendar. -/
theorem shift?_of_long (t : LocalTime) {millis : Int} (long : 2 ^ 63 ≤ millis.natAbs) :
    t.shift? millis = none := by
  rw [Option.eq_none_iff_forall_ne_some]
  intro moved found
  have shown := ofMillis?_eq_some_iff.1 found
  have forth := moved.millis_sub_lt t
  have back := t.millis_sub_lt moved
  omega

end LocalTime

namespace DateTime

def reaching (field : String) (wall : Option LocalTime) : Except ValueError LocalTime :=
  wall.elim (.error (tooFar field)) .ok

theorem reaching_eq_ok_iff {field : String} {wall : Option LocalTime} {moved : LocalTime} :
    reaching field wall = .ok moved ↔ wall = some moved := by
  cases wall with
  | none => simp only [reaching, Option.elim_none, reduceCtorEq]
  | some wall => simp only [reaching, Option.elim_some, Except.ok.injEq, Option.some.injEq]

theorem reaching_bind (field : String) (wall : Option LocalTime)
    (next : LocalTime → Option LocalTime) :
    (reaching field wall >>= fun moved => reaching field (next moved)) =
      reaching field (wall.bind next) := by
  cases wall with
  | none => rfl
  | some wall => rfl

theorem addMonths_eq {sign : Int} (unit : sign = 1 ∨ sign = -1) (months : Nat)
    (wall : LocalTime) :
    addMonths months sign wall = reaching "months" (wall.addMonths? (sign * months)) := by
  unfold addMonths
  by_cases none : months = 0
  · rw [none, Int.natCast_zero, Int.mul_zero, LocalTime.addMonths?_zero, if_pos rfl]
    rfl
  rw [if_neg none]
  by_cases long : 2 ^ 32 ≤ months
  · have far : 2 ^ 32 ≤ (sign * months).natAbs := by rcases unit with rfl | rfl <;> omega
    rw [if_pos long, wall.addMonths?_of_long far]
    rfl
  · rw [if_neg long]
    cases wall.addMonths? (sign * months) with
    | none => rfl
    | some moved => rfl

theorem months_of_years (sign : Int) (years : Nat) :
    sign * ((years * 12 : Nat) : Int) = 12 * (sign * years) := by
  rw [Int.natCast_mul, Int.mul_comm (years : Int), Int.mul_left_comm]
  rfl

theorem addYears_eq {sign : Int} (unit : sign = 1 ∨ sign = -1) {years : Nat}
    (fits : years * 12 < 2 ^ 64) (wall : LocalTime) :
    addYears years sign wall = reaching "months" (wall.addMonths? (12 * (sign * years))) := by
  rw [addYears, if_neg (Nat.not_le.2 fits), addMonths_eq unit, months_of_years]

theorem addMonths?_of_addMonths {months : Nat} {sign : Int} {wall moved : LocalTime}
    (h : addMonths months sign wall = .ok moved) : wall.addMonths? (sign * months) = some moved := by
  unfold addMonths at h
  split at h
  · rename_i none
    rw [none, Int.natCast_zero, Int.mul_zero, LocalTime.addMonths?_zero]
    exact congrArg some (Except.ok.inj h)
  split at h
  · simp only [reduceCtorEq] at h
  · split at h
    · rename_i found
      rw [found]
      exact congrArg some (Except.ok.inj h)
    · simp only [reduceCtorEq] at h

theorem fits_of_addYears {years : Nat} {sign : Int} {wall moved : LocalTime}
    (h : addYears years sign wall = .ok moved) : years * 12 < 2 ^ 64 := by
  unfold addYears at h
  split at h
  · simp only [reduceCtorEq] at h
  · omega

theorem addMonths?_of_addYears {years : Nat} {sign : Int} {wall moved : LocalTime}
    (h : addYears years sign wall = .ok moved) :
    wall.addMonths? (12 * (sign * years)) = some moved := by
  rw [addYears, if_neg (Nat.not_le.2 (fits_of_addYears h))] at h
  have found := addMonths?_of_addMonths h
  rwa [months_of_years] at found

theorem ClockUnit.millis_pos (unit : ClockUnit) : 0 < unit.millis := by cases unit <;> decide

theorem addUnits_eq {sign : Int} (direction : sign = 1 ∨ sign = -1) (unit : ClockUnit)
    (count : Nat) (wall : LocalTime) :
    addUnits unit count sign wall =
      reaching unit.name (wall.shift? (sign * ((count * unit.millis : Nat) : Int))) := by
  have least : count ≤ count * unit.millis := Nat.le_mul_of_pos_right count unit.millis_pos
  unfold addUnits
  by_cases none : count = 0
  · rw [if_pos none, none, Nat.zero_mul, Int.natCast_zero, Int.mul_zero, wall.shift?_zero]
    rfl
  rw [if_neg none]
  generalize count * unit.millis = millis at least
  by_cases long : 2 ^ 63 ≤ millis
  · have far : 2 ^ 63 ≤ (sign * millis).natAbs := by rcases direction with rfl | rfl <;> omega
    rw [if_pos long, ite_self, wall.shift?_of_long far]
    rfl
  · rw [if_neg (by omega), if_neg long]
    cases wall.shift? (sign * millis) with
    | none => rfl
    | some moved => rfl

theorem addUnits_eq_ok_iff {sign : Int} (direction : sign = 1 ∨ sign = -1) {unit : ClockUnit}
    {count : Nat} {wall moved : LocalTime} :
    addUnits unit count sign wall = .ok moved ↔
      moved.millis = wall.millis + sign * ((count * unit.millis : Nat) : Int) := by
  rw [addUnits_eq direction, reaching_eq_ok_iff]
  exact LocalTime.ofMillis?_eq_some_iff

def shiftAll (sign : Int) : List (ClockUnit × Nat) → LocalTime → Except ValueError LocalTime
  | [], wall => .ok wall
  | (unit, count) :: rest, wall => do
    let wall ← addUnits unit count sign wall
    shiftAll sign rest wall

/-- All amounts go in one direction, so no step leaves the calendar on the way to a reading. -/
theorem shiftAll_eq_ok_iff {sign : Int} (direction : sign = 1 ∨ sign = -1)
    {amounts : List (ClockUnit × Nat)} {wall moved : LocalTime} :
    shiftAll sign amounts wall = .ok moved ↔
      moved.millis = wall.millis + sign * millisIn amounts := by
  induction amounts generalizing wall with
  | nil =>
    rw [millisIn, List.map_nil, List.sum_nil, Int.natCast_zero, Int.mul_zero, Int.add_zero,
      shiftAll, Except.ok.injEq, eq_comm]
    exact LocalTime.eq_iff_millis
  | cons amount rest ih =>
    have sum : millisIn (amount :: rest) = amount.2 * amount.1.millis + millisIn rest := rfl
    rw [sum, Int.natCast_add, Int.mul_add, ← Int.add_assoc]
    constructor
    · intro h
      obtain ⟨next, first, others⟩ := bind_eq_ok_iff.1 h
      rw [ih.1 others, (addUnits_eq_ok_iff direction).1 first]
    · intro reached
      generalize millis : amount.2 * amount.1.millis = first at reached
      have within : (wall.millis ≤ wall.millis + sign * first ∧
          wall.millis + sign * first ≤ moved.millis) ∨
          moved.millis ≤ wall.millis + sign * first ∧ wall.millis + sign * first ≤ wall.millis := by
        rcases direction with rfl | rfl <;> omega
      obtain ⟨next, shown⟩ := LocalTime.exists_between within
      refine bind_eq_ok_iff.2 ⟨next, (addUnits_eq_ok_iff direction).2 (by rw [millis, shown]),
        ih.2 ?_⟩
      rw [reached, shown]

def stepMonths (u : Duration) (sign : Int) (wall : LocalTime) : Except ValueError LocalTime := do
  let wall ← addYears u.years.toNat sign wall
  addMonths u.months.toNat sign wall

theorem exists_of_stepMonths {u : Duration} {sign : Int} {wall stepped : LocalTime}
    (h : stepMonths u sign wall = .ok stepped) :
    ∃ inYear, wall.addMonths? (12 * (sign * u.years.toNat)) = some inYear ∧
      inYear.addMonths? (sign * u.months.toNat) = some stepped := by
  obtain ⟨inYear, years, months⟩ := bind_eq_ok_iff.1 h
  exact ⟨inYear, addMonths?_of_addYears years, addMonths?_of_addMonths months⟩

theorem timeOfDay_of_stepMonths {u : Duration} {sign : Int} {wall stepped : LocalTime}
    (h : stepMonths u sign wall = .ok stepped) : stepped.timeOfDay = wall.timeOfDay := by
  obtain ⟨inYear, years, months⟩ := exists_of_stepMonths h
  have time := (LocalTime.onDate?_eq_some_iff.1 years).2
  have time' := (LocalTime.onDate?_eq_some_iff.1 months).2
  exact time'.trans time

theorem stepMonths_eq {u : Duration} (fits : u.years.toNat * 12 < 2 ^ 64) {sign : Int}
    (unit : sign = 1 ∨ sign = -1) (wall : LocalTime) :
    stepMonths u sign wall = reaching "months"
      (wall.onDate? ((wall.date.throughYears (sign * u.years.toNat)).addMonths
        (sign * u.monthCount))) := by
  have direction : 0 ≤ sign * (u.years.toNat : Int) ∧ 0 ≤ sign * (u.months.toNat : Int) ∨
      sign * (u.years.toNat : Int) ≤ 0 ∧ sign * (u.months.toNat : Int) ≤ 0 := by
    rcases unit with rfl | rfl <;> omega
  simp only [stepMonths, addYears_eq unit fits, addMonths_eq unit, reaching_bind,
    wall.addMonths?_years_months direction, u.mul_monthCount]

theorem move_eq (d : DateTime) (u : Duration) (sign : Int) :
    d.move u sign = do
      let stepped ← stepMonths u sign d.wall
      let wall ← shiftAll sign u.clockAmounts stepped
      return { d with wall } := by
  simp only [move, stepMonths, Duration.clockAmounts, shiftAll, bind_assoc]
  rfl

theorem move_eq_ok_iff {u : Duration} {sign : Int} (unit : sign = 1 ∨ sign = -1)
    {d e : DateTime} :
    d.move u sign = .ok e ↔
      ∃ stepped, stepMonths u sign d.wall = .ok stepped ∧
        e.wall.millis = stepped.millis + sign * u.clockMillis ∧ e.zone = d.zone := by
  obtain ⟨wall, zone⟩ := e
  simp only [move_eq, bind_eq_ok_iff, shiftAll_eq_ok_iff unit, u.sum_clockAmounts]
  constructor
  · rintro ⟨stepped, steps, shifted, millis, made⟩
    obtain ⟨rfl, rfl⟩ := DateTime.mk.inj (Except.ok.inj made)
    exact ⟨stepped, steps, millis, rfl⟩
  · rintro ⟨stepped, steps, millis, rfl⟩
    exact ⟨stepped, steps, wall, millis, rfl⟩

theorem eq_of_millis {d e : DateTime} (zone : d.zone = e.zone)
    (millis : d.wall.millis = e.wall.millis) : d = e := by
  obtain ⟨wall, _⟩ := d
  obtain ⟨wall', _⟩ := e
  obtain rfl : wall = wall' := LocalTime.eq_iff_millis.2 millis
  simp only at zone
  rw [zone]

end DateTime

end PolicyValues
