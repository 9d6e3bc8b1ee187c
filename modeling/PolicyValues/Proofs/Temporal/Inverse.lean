import Mathlib.Order.Basic
import PolicyValues.Proofs.Temporal.Moves

/-!
Moving by a duration and back. Both ways go from the largest component to the smallest, so the way
back does not undo the way there in reverse: what is shifted in between lies in other months. As
long as no day of the month is cut, the result is off by as many days as the months stepped over
forth and back differ in, and by nothing else.
-/
namespace PolicyValues.DateTime
open CivilDate

structure Unclamped (u : Duration) (sign : Int) (wall : LocalTime) : Prop where
  years : ∀ inYear ∈ (addYears u.years.toNat sign wall).toOption, inYear.date.day = wall.date.day
  months : ∀ inYear ∈ (addYears u.years.toNat sign wall).toOption,
    ∀ stepped ∈ (addMonths u.months.toNat sign inYear).toOption,
      stepped.date.day = inYear.date.day

instance (u : Duration) (sign : Int) (wall : LocalTime) : Decidable (Unclamped u sign wall) :=
  decidable_of_iff
    ((∀ inYear ∈ (addYears u.years.toNat sign wall).toOption,
        inYear.date.day = wall.date.day) ∧
      ∀ inYear ∈ (addYears u.years.toNat sign wall).toOption,
        ∀ stepped ∈ (addMonths u.months.toNat sign inYear).toOption,
          stepped.date.day = inYear.date.day)
    ⟨fun ⟨years, months⟩ => ⟨years, months⟩, fun ⟨years, months⟩ => ⟨years, months⟩⟩

theorem Unclamped.shift {u : Duration} {sign : Int} {wall stepped : LocalTime}
    (kept : Unclamped u sign wall) (h : stepMonths u sign wall = .ok stepped) :
    stepped.date.monthIndex = wall.date.monthIndex + sign * u.monthCount ∧
      stepped.millis = wall.millis +
        millisPerDay * monthsSpan wall.date.monthIndex (sign * u.monthCount) := by
  obtain ⟨inYear, years, months⟩ := bind_eq_ok_iff.1 h
  have day : stepped.date.day = wall.date.day := by
    have first := kept.years inYear (by rw [years]; rfl)
    have second := kept.months inYear (by rw [years]; rfl) stepped (by rw [months]; rfl)
    exact second.trans first
  have date := (LocalTime.onDate?_eq_some_iff.1 (addMonths?_of_addYears years)).1
  have date' := (LocalTime.onDate?_eq_some_iff.1 (addMonths?_of_addMonths months)).1
  have index : stepped.date.monthIndex = wall.date.monthIndex + sign * u.monthCount := by
    rw [date', monthIndex_addMonths, date, monthIndex_addMonths, u.mul_monthCount, Int.add_assoc]
  refine ⟨index, ?_⟩
  rw [stepped.millis_eq, wall.millis_eq, stepped.day.number_eq, wall.day.number_eq,
    timeOfDay_of_stepMonths h]
  unfold LocalTime.date at day index
  unfold monthsSpan LocalTime.date
  rw [index, day]
  unfold millisPerDay
  omega

/-- Days are gained on the way there and lost on the way back by the months stepped over. -/
theorem millis_back {u : Duration} {sign : Int} (unit : sign = 1 ∨ sign = -1)
    {d there back : DateTime} (forth : d.move u sign = .ok there)
    (backward : there.move u (-sign) = .ok back)
    (kept : Unclamped u sign d.wall) (kept' : Unclamped u (-sign) there.wall) :
    back.zone = d.zone ∧
      back.wall.millis = d.wall.millis + millisPerDay *
        (monthsSpan d.wall.date.monthIndex (sign * u.monthCount) -
          monthsSpan (there.wall.date.monthIndex - sign * u.monthCount) (sign * u.monthCount)) := by
  obtain ⟨stepped, steps, moved, zone⟩ := (move_eq_ok_iff unit).1 forth
  obtain ⟨stepped', steps', moved', zone'⟩ := (move_eq_ok_iff (by omega)).1 backward
  have gain := (kept.shift steps).2
  have loss := (kept'.shift steps').2
  rw [Int.neg_mul] at loss moved'
  have reverse : monthsSpan there.wall.date.monthIndex (-(sign * u.monthCount)) =
      -monthsSpan (there.wall.date.monthIndex - sign * u.monthCount) (sign * u.monthCount) := by
    rw [monthsSpan, monthsSpan, Int.sub_add_cancel, ← Int.sub_eq_add_neg, Int.neg_sub]
  rw [reverse] at loss
  refine ⟨zone'.trans zone, ?_⟩
  rw [moved', loss, moved, gain, Int.mul_neg, Int.mul_sub]
  omega

/-- The months stepped over on the way to a value take as many days as those before the value. -/
def SpansAgree (start there : DateTime) (months : Int) : Prop :=
  monthsSpan start.wall.date.monthIndex months =
    monthsSpan (there.wall.date.monthIndex - months) months

theorem back_eq_iff {u : Duration} {sign : Int} (unit : sign = 1 ∨ sign = -1)
    {d there back : DateTime} (forth : d.move u sign = .ok there)
    (backward : there.move u (-sign) = .ok back)
    (kept : Unclamped u sign d.wall) (kept' : Unclamped u (-sign) there.wall) :
    back = d ↔ SpansAgree d there (sign * u.monthCount) := by
  obtain ⟨zone, millis⟩ := millis_back unit forth backward kept kept'
  unfold SpansAgree
  unfold millisPerDay at millis
  constructor
  · rintro rfl
    omega
  · intro same
    refine eq_of_millis zone ?_
    rw [millis, same]
    omega

theorem spansAgree_of_sameMonth {start there : DateTime} {months : Int}
    (h : months = 0 ∨ there.wall.date.monthIndex = start.wall.date.monthIndex + months) :
    SpansAgree start there months := by
  unfold SpansAgree
  rcases h with rfl | reached
  · rw [monthsSpan_zero, monthsSpan_zero]
  · rw [reached, Int.add_sub_cancel]

/-- Where nothing is clamped, a move is undone by the opposite move exactly if the months stepped
over forth and back take equally many days; they do without years and months, and where the smaller
components stay within the month that these lead to. -/
theorem add_sub_eq_self_iff_spansAgree :
    (∀ (d there back : DateTime) (u : Duration),
      d.add u = .ok there → there.sub u = .ok back →
      Unclamped u u.sign d.wall → Unclamped u (-u.sign) there.wall →
        (back = d ↔ SpansAgree d there (u.sign * u.monthCount)) ∧
        (u.sign * u.monthCount = 0 ∨
          there.wall.date.monthIndex = d.wall.date.monthIndex + u.sign * u.monthCount →
            back = d)) ∧
    (∀ (d there back : DateTime) (u : Duration),
      d.sub u = .ok there → there.add u = .ok back →
      Unclamped u (-u.sign) d.wall → Unclamped u u.sign there.wall →
        (back = d ↔ SpansAgree d there (-u.sign * u.monthCount)) ∧
        (-u.sign * u.monthCount = 0 ∨
          there.wall.date.monthIndex = d.wall.date.monthIndex + -u.sign * u.monthCount →
            back = d)) := by
  constructor
  · intro d there back u forth backward kept kept'
    have undone := back_eq_iff u.sign_eq forth backward kept kept'
    exact ⟨undone, fun same => undone.2 (spansAgree_of_sameMonth same)⟩
  · intro d there back u forth backward kept kept'
    have backward' : there.move u (- -u.sign) = .ok back := by rwa [Int.neg_neg]
    have kept'' : Unclamped u (- -u.sign) there.wall := by rwa [Int.neg_neg]
    have undone := back_eq_iff u.neg_sign_eq forth backward' kept kept''
    exact ⟨undone, fun same => undone.2 (spansAgree_of_sameMonth same)⟩

theorem winter_day_restored :
    let d : DateTime := ⟨⟨1389340800000, by decide, by decide⟩, none⟩
    let later : DateTime := ⟨⟨1423821600000, by decide, by decide⟩, none⟩
    let earlier : DateTime := ⟨⟨1354860000000, by decide, by decide⟩, none⟩
    let u : Duration := .signed false { years := 1, months := 1, days := 3, hours := 2 }
    d.text = "2014-01-10T08:00:00" ∧ later.text = "2015-02-13T10:00:00" ∧
      earlier.text = "2012-12-07T06:00:00" ∧ u.text = "P1Y1M3DT2H" ∧
      (d.add u = .ok later ∧ later.sub u = .ok d ∧ Unclamped u u.sign d.wall ∧
        Unclamped u (-u.sign) later.wall ∧ SpansAgree d later (u.sign * u.monthCount)) ∧
      (d.sub u = .ok earlier ∧ earlier.add u = .ok d ∧ Unclamped u (-u.sign) d.wall ∧
        Unclamped u u.sign earlier.wall ∧ SpansAgree d earlier (-u.sign * u.monthCount)) := by
  intro d later earlier u
  have forth : d.add u = .ok later := by decide +kernel
  have backward : later.sub u = .ok d := by decide +kernel
  have kept : Unclamped u u.sign d.wall := by decide +kernel
  have kept' : Unclamped u (-u.sign) later.wall := by decide +kernel
  have forth' : d.sub u = .ok earlier := by decide +kernel
  have backward' : earlier.add u = .ok d := by decide +kernel
  have kept_back : Unclamped u (-u.sign) d.wall := by decide +kernel
  have kept_back' : Unclamped u u.sign earlier.wall := by decide +kernel
  refine ⟨by decide +kernel, by decide +kernel, by decide +kernel, by decide +kernel, ?_, ?_⟩
  · have undone := add_sub_eq_self_iff_spansAgree.1 d later d u forth backward kept kept'
    exact ⟨forth, backward, kept, kept', undone.1.1 rfl⟩
  · have undone :=
      add_sub_eq_self_iff_spansAgree.2 d earlier d u forth' backward' kept_back kept_back'
    exact ⟨forth', backward', kept_back, kept_back', undone.1.1 rfl⟩

theorem january_day_not_restored :
    ¬ ((∀ (d there back : DateTime) (u : Duration),
        d.add u = .ok there → there.sub u = .ok back →
        Unclamped u u.sign d.wall → Unclamped u (-u.sign) there.wall → back = d) ∧
      (∀ (d there back : DateTime) (u : Duration),
        d.sub u = .ok there → there.add u = .ok back →
        Unclamped u (-u.sign) d.wall → Unclamped u u.sign there.wall → back = d)) := by
  intro ⟨restored, _⟩
  let d : DateTime := ⟨⟨1390867200000, by decide, by decide⟩, none⟩
  let there : DateTime := ⟨⟨1393804800000, by decide, by decide⟩, none⟩
  let back : DateTime := ⟨⟨1391126400000, by decide, by decide⟩, none⟩
  let u : Duration := .signed false { months := 1, days := 3 }
  have same : back = d := restored d there back u (by decide +kernel) (by decide +kernel)
    (by decide +kernel) (by decide +kernel)
  exact absurd same (by decide)

end PolicyValues.DateTime
