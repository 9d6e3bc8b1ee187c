import PolicyValues.Proofs.Temporal.Monotone

/-!
Readings of one clock are ordered as their fields are, the year first and the milliseconds last. A
count of milliseconds is a number in mixed places: a date over a time of day, and that an hour over
minutes over seconds. The days of a month are the only place without a fixed size.
-/
namespace PolicyValues

theorem compare_place {unit a b r s : Int} (hr : 0 ≤ r ∧ r < unit) (hs : 0 ≤ s ∧ s < unit) :
    Ord.compare (unit * a + r) (unit * b + s) = (Ord.compare a b).then (Ord.compare r s) := by
  have step {a b r s : Int} (less : a < b) (hr : r < unit) (hs : 0 ≤ s) (unit_pos : 0 ≤ unit) :
      unit * a + r < unit * b + s := by
    have next : unit * (a + 1) ≤ unit * b := Int.mul_le_mul_of_nonneg_left less unit_pos
    rw [Int.mul_add, Int.mul_one] at next
    omega
  have unit_pos : 0 ≤ unit := by omega
  rcases Int.lt_trichotomy a b with less | rfl | greater
  · rw [Int.compare_eq_lt.2 less, Int.compare_eq_lt.2 (step less hr.2 hs.1 unit_pos)]
    rfl
  · rw [Int.compare_eq_eq.2 rfl, Ordering.eq_then]
    exact DateTime.compare_eq_of_sub_eq (by omega)
  · rw [Int.compare_eq_gt.2 greater, Int.compare_eq_gt.2 (step greater hs.2 hr.1 unit_pos)]
    rfl

theorem compare_natCast (m n : Nat) : Ord.compare (m : Int) n = Ord.compare m n := by
  rw [Int.compare_eq_ite_lt, Nat.compare_eq_ite_lt]
  simp only [Int.ofNat_lt]

namespace CivilDate

def lexicographic : CivilDate → CivilDate → Ordering :=
  compareLex (compareOn year) (compareLex (compareOn month) (compareOn day))

theorem compare_monthIndex {a b : CivilDate} (ha : a.Valid) (hb : b.Valid) :
    Ord.compare a.monthIndex b.monthIndex =
      (Ord.compare a.year b.year).then (Ord.compare a.month b.month) := by
  obtain ⟨month_pos, month_le, _, _⟩ := ha
  obtain ⟨month_pos', month_le', _, _⟩ := hb
  rw [monthIndex, monthIndex, compare_place (by omega) (by omega), ← compare_natCast]
  exact congrArg _ (DateTime.compare_eq_of_sub_eq (by omega))

theorem compare_dayNumber {a b : CivilDate} (ha : a.Valid) (hb : b.Valid) :
    Ord.compare a.dayNumber b.dayNumber = lexicographic a b := by
  have order : lexicographic a b =
      (Ord.compare a.monthIndex b.monthIndex).then (Ord.compare a.day b.day) := by
    rw [compare_monthIndex ha hb, Ordering.then_assoc]
    rfl
  rw [order]
  rcases Int.lt_trichotomy a.monthIndex b.monthIndex with earlier | same | later
  · rw [Int.compare_eq_lt.2 earlier,
      Int.compare_eq_lt.2 (dayNumber_lt_of_monthIndex_lt ha hb earlier)]
    rfl
  · rw [dayNumber_eq ha, dayNumber_eq hb, Int.compare_eq_eq.2 same, same, Ordering.eq_then,
      ← compare_natCast]
    exact DateTime.compare_eq_of_sub_eq (by omega)
  · rw [Int.compare_eq_gt.2 later,
      Int.compare_eq_gt.2 (dayNumber_lt_of_monthIndex_lt hb ha later)]
    rfl

theorem lexicographic_eq_eq_iff {a b : CivilDate} : lexicographic a b = .eq ↔ a = b := by
  obtain ⟨year, month, day⟩ := a
  obtain ⟨year', month', day'⟩ := b
  simp only [lexicographic, compareLex_eq_eq, compareOn, Int.compare_eq_eq, Nat.compare_eq_eq,
    CivilDate.mk.injEq]

end CivilDate

namespace ClockFields

def lexicographic : ClockFields → ClockFields → Ordering :=
  compareLex (compareOn year) <| compareLex (compareOn month) <| compareLex (compareOn day) <|
    compareLex (compareOn hour) <| compareLex (compareOn minute) <|
      compareLex (compareOn second) (compareOn millisecond)

theorem lexicographic_eq_eq_iff {f g : ClockFields} : lexicographic f g = .eq ↔ f = g := by
  obtain ⟨_, _, _, _, _, _, _⟩ := f
  obtain ⟨_, _, _, _, _, _, _⟩ := g
  simp only [lexicographic, compareLex_eq_eq, compareOn, Int.compare_eq_eq, Nat.compare_eq_eq,
    ClockFields.mk.injEq]

end ClockFields

namespace TimeOfDay

theorem compare_millis (t u : TimeOfDay) :
    Ord.compare (t.millis : Int) u.millis =
      (Ord.compare t.hour u.hour).then ((Ord.compare t.minute u.minute).then
        ((Ord.compare t.second u.second).then (Ord.compare t.millisecond u.millisecond))) := by
  have places (t : TimeOfDay) : (t.millis : Int) =
      3600000 * t.hour + (60000 * t.minute + (1000 * t.second + t.millisecond)) := by
    unfold hour minute second millisecond
    omega
  have small (t : TimeOfDay) : (0 : Int) ≤ t.millisecond ∧ (t.millisecond : Int) < 1000 := by
    have := t.millisecond_le
    omega
  have inMinute (t : TimeOfDay) : (0 : Int) ≤ 1000 * t.second + t.millisecond ∧
      (1000 * t.second + t.millisecond : Int) < 60000 := by
    have := t.second_le
    have := t.millisecond_le
    omega
  have inHour (t : TimeOfDay) :
      (0 : Int) ≤ 60000 * t.minute + (1000 * t.second + t.millisecond) ∧
        (60000 * t.minute + (1000 * t.second + t.millisecond) : Int) < 3600000 := by
    have := t.minute_le
    have := inMinute t
    omega
  rw [places t, places u, compare_place (inHour t) (inHour u),
    compare_place (inMinute t) (inMinute u), compare_place (small t) (small u)]
  simp only [compare_natCast]

end TimeOfDay

namespace LocalTime

theorem compare_millis (t u : LocalTime) :
    Ord.compare t.millis u.millis =
      (CivilDate.lexicographic t.date u.date).then
        (Ord.compare (t.timeOfDay.millis : Int) u.timeOfDay.millis) := by
  have inDay (t : LocalTime) :
      (0 : Int) ≤ t.timeOfDay.millis ∧ (t.timeOfDay.millis : Int) < millisPerDay := by
    have := t.timeOfDay.bound
    unfold millisPerDay
    omega
  rw [← CivilDate.compare_dayNumber t.date_valid u.date_valid, ← compare_place (inDay t) (inDay u),
    t.millis_eq, u.millis_eq, t.day.number_eq_dayNumber, u.day.number_eq_dayNumber,
    Int.mul_comm millisPerDay, Int.mul_comm millisPerDay]
  rfl

theorem compare_fields (t u : LocalTime) :
    Ord.compare t.millis u.millis = ClockFields.lexicographic t.fields u.fields := by
  rw [compare_millis, TimeOfDay.compare_millis, CivilDate.lexicographic, compareLex, compareLex,
    Ordering.then_assoc, Ordering.then_assoc]
  rfl

end LocalTime

/-- Of one zone, or both without, instants are always ordered, and as their fields are; they are
equal only where all fields are. So are dates, by the year, the month and the day. -/
theorem ordered_as_fields_in_one_zone :
    (∀ d e : DateTime, d.zone = e.zone →
      d.compare e = .ok (ClockFields.lexicographic d.wall.fields e.wall.fields) ∧
        (d.compare e = .ok .eq ↔ d.wall.fields = e.wall.fields)) ∧
    ∀ a b : Date, a.zone = b.zone →
      a.compare b = .ok (CivilDate.lexicographic a.civil b.civil) ∧
        (a.compare b = .ok .eq ↔ a.civil = b.civil) := by
  constructor
  · intro d e zone
    have order := DateTime.compare_of_sameZone zone
    rw [LocalTime.compare_fields] at order
    refine ⟨order, ?_⟩
    rw [order, Except.ok.injEq, ClockFields.lexicographic_eq_eq_iff]
  · intro a b zone
    have midnight : (a.wall.timeOfDay.millis : Int) = b.wall.timeOfDay.millis := by
      rw [a.midnight, b.midnight]
    have order : a.compare b = .ok (CivilDate.lexicographic a.civil b.civil) := by
      rw [Date.compare, DateTime.compare_of_sameZone zone, LocalTime.compare_millis,
        Int.compare_eq_eq.2 midnight, Ordering.then_eq]
      rfl
    refine ⟨order, ?_⟩
    rw [order, Except.ok.injEq, CivilDate.lexicographic_eq_eq_iff]

theorem last_moment_comes_before_year_zero :
    let zone : Option Zone := some ⟨330, by decide, by decide⟩
    let d : DateTime := ⟨⟨-62167219200001, by decide, by decide⟩, zone⟩
    let e : DateTime := ⟨⟨-62167219200000, by decide, by decide⟩, zone⟩
    let a : Date := .ofDateTime d
    let b : Date := .ofDateTime e
    (d.text = "-0001-12-31T23:59:59.999+05:30" ∧ e.text = "0000-01-01T00:00:00+05:30" ∧
        a.text = "-0001-12-31+05:30" ∧ b.text = "0000-01-01+05:30") ∧
      (d.zone = e.zone ∧ ClockFields.lexicographic d.wall.fields e.wall.fields = .lt ∧
        d.compare e = .ok .lt) ∧
      (a.zone = b.zone ∧ CivilDate.lexicographic a.civil b.civil = .lt ∧
        a.compare b = .ok .lt) := by
  intro zone d e a b
  have fields : ClockFields.lexicographic d.wall.fields e.wall.fields = .lt := by decide +kernel
  have civil : CivilDate.lexicographic a.civil b.civil = .lt := by decide +kernel
  obtain ⟨instants, dates⟩ := ordered_as_fields_in_one_zone
  have order := (instants d e rfl).1
  have order' := (dates a b rfl).1
  rw [fields] at order
  rw [civil] at order'
  exact ⟨by decide +kernel, ⟨rfl, fields, order⟩, ⟨rfl, civil, order'⟩⟩

end PolicyValues
