import PolicyValues.Conversion
import PolicyValues.Proofs.Text.Digits

/-!
The two views of values. A datatype that looks only at its own members shows and orders them as
values show themselves and are ordered among all others, and refuses every other value.
-/
namespace PolicyValues.DataType

section
variable {t : DataType} {v a b : Value}

theorem ofValue?_toValue (x : t.Member) : t.members.ofValue? (t.members.toValue x) = some x := by
  cases t <;> rfl

theorem exists_toValue_iff : (∃ x : t.Member, t.members.toValue x = v) ↔ v.dataType = t := by
  constructor
  · rintro ⟨x, rfl⟩
    cases t <;> rfl
  · rintro rfl
    cases v <;> exact ⟨_, rfl⟩

theorem ofValue?_of_foreign (foreign : v.dataType ≠ t) : t.members.ofValue? v = none := by
  cases t <;> cases v <;> first | rfl | exact absurd rfl foreign

theorem text_toValue (x : t.Member) : (t.members.toValue x).text = t.members.text x := by
  cases t <;> rfl

theorem compare_toValue (x y : t.Member) :
    (t.members.toValue x).compare (t.members.toValue y) = t.members.compare x y := by
  cases t <;> rfl

theorem compare_of_unordered (unordered : t.isOrdered = false) (x y : t.Member) :
    t.members.compare x y = .ok none := by
  cases t
  case string | integer | double | date | time | dateTime | dayTimeDuration | yearMonthDuration =>
    exact absurd unordered (by decide)
  all_goals rfl

theorem compare_eq_total_or_partially (ordered : t.isOrdered = true) (number : t ≠ .double) :
    (∃ order, t.members.compare = Members.total order) ∨
      ∃ order, t.members.compare = Members.partially order := by
  cases t
  case double => exact absurd rfl number
  case string | integer | dayTimeDuration | yearMonthDuration => exact .inl ⟨_, rfl⟩
  case date | time | dateTime => exact .inr ⟨_, rfl⟩
  all_goals exact absurd ordered (by decide)

theorem compare_ne_none (ordered : t.isOrdered = true) (number : t ≠ .double) (x y : t.Member) :
    t.members.compare x y ≠ .ok none := by
  intro missing
  rcases compare_eq_total_or_partially ordered number with ⟨order, total⟩ | ⟨order, partially⟩
  · rw [total, Members.total] at missing
    simp only [Except.ok.injEq, reduceCtorEq] at missing
  · rw [partially] at missing
    obtain ⟨found, _, made⟩ := map_eq_ok_iff.1 missing
    simp only [reduceCtorEq] at made

theorem own_toValue (x : t.Member) : t.own (t.members.toValue x) = .ok x := by
  rw [own, ofValue?_toValue]

theorem own_of_foreign (foreign : v.dataType ≠ t) :
    t.own v = .error (.foreignValue t v.dataType) := by
  rw [own, ofValue?_of_foreign foreign]

theorem render_of_own (own : v.dataType = t) : t.render v = .ok v.text := by
  obtain ⟨x, rfl⟩ := exists_toValue_iff.2 own
  rw [render, own_toValue, text_toValue]
  rfl

theorem render_of_foreign (foreign : v.dataType ≠ t) :
    t.render v = .error (.foreignValue t v.dataType) := by
  rw [render, own_of_foreign foreign]
  rfl

theorem compare_of_members (x y : t.Member) :
    t.compare (t.members.toValue x) (t.members.toValue y) =
      (t.members.compare x y).mapError (.unordered t) := by
  rw [compare, own_toValue, own_toValue]
  rfl

theorem compare_of_own (left : a.dataType = t) (right : b.dataType = t) :
    t.compare a b = (a.compare b).mapError (.unordered t) := by
  obtain ⟨x, rfl⟩ := exists_toValue_iff.2 left
  obtain ⟨y, rfl⟩ := exists_toValue_iff.2 right
  rw [compare_of_members, compare_toValue]

theorem compare_of_foreign_left (foreign : a.dataType ≠ t) :
    t.compare a b = .error (.foreignValue t a.dataType) := by
  rw [compare, own_of_foreign foreign]
  rfl

theorem compare_of_foreign_right (left : a.dataType = t) (foreign : b.dataType ≠ t) :
    t.compare a b = .error (.foreignValue t b.dataType) := by
  obtain ⟨x, rfl⟩ := exists_toValue_iff.2 left
  rw [compare, own_toValue, own_of_foreign foreign]
  rfl

end

/-- A datatype shows and orders its own values as values are shown and ordered anywhere, but blames
itself where there is no order; of foreign values it blames the first. Whether it says that it has
an order decides whether its values, save for doubles, ever have none. -/
theorem own_view_agrees_with_values (t : DataType) :
    (∀ v : Value, v.dataType = t → t.render v = .ok v.text) ∧
    (∀ v : Value, v.dataType ≠ t → t.render v = .error (.foreignValue t v.dataType)) ∧
    (∀ a b : Value, a.dataType = t → b.dataType = t →
      t.compare a b = (a.compare b).mapError (.unordered t)) ∧
    (∀ a b : Value, a.dataType ≠ t → t.compare a b = .error (.foreignValue t a.dataType)) ∧
    (∀ a b : Value, a.dataType = t → b.dataType ≠ t →
      t.compare a b = .error (.foreignValue t b.dataType)) ∧
    (t.isOrdered = false →
      ∀ a b : Value, a.dataType = t → b.dataType = t → t.compare a b = .ok none) ∧
    (t.isOrdered = true → t ≠ .double → ∀ a b : Value, t.compare a b ≠ .ok none) := by
  refine ⟨fun v => render_of_own, fun v => render_of_foreign, fun a b => compare_of_own,
    fun a b => compare_of_foreign_left, fun a b => compare_of_foreign_right, ?_, ?_⟩
  · intro unordered a b left right
    obtain ⟨x, rfl⟩ := exists_toValue_iff.2 left
    obtain ⟨y, rfl⟩ := exists_toValue_iff.2 right
    rw [compare_of_members, compare_of_unordered unordered]
    rfl
  · intro ordered number a b missing
    obtain ⟨x, _, rest⟩ := bind_eq_ok_iff.1 missing
    obtain ⟨y, _, compared⟩ := bind_eq_ok_iff.1 rest
    exact compare_ne_none ordered number x y (mapError_eq_ok_iff.1 compared)

theorem close_instants_blamed_in_both_views :
    let zoned : Value := .dateTime ⟨.ofDay .epoch .midnight, some .utc⟩
    let floating : Value := .dateTime ⟨.ofDay .epoch .midnight, none⟩
    let number : Value := .integer 7
    let cause : ValueError := .ambiguous "1970-01-01T00:00:00Z" "1970-01-01T00:00:00"
    (zoned.dataType = .dateTime ∧ floating.dataType = .dateTime ∧ number.dataType ≠ .dateTime) ∧
      zoned.compare floating = .error cause ∧
      DataType.compare .dateTime zoned floating = .error (.unordered .dateTime cause) ∧
      DataType.compare .dateTime number zoned = .error (.foreignValue .dateTime .integer) ∧
      DataType.compare .dateTime zoned number = .error (.foreignValue .dateTime .integer) ∧
      render .dateTime floating = .ok "1970-01-01T00:00:00" ∧
      (isOrdered .boolean = false ∧
        DataType.compare .boolean (.boolean false) (.boolean true) = .ok none) ∧
      isOrdered .dateTime = true ∧ DataType.compare .dateTime zoned zoned ≠ .ok none := by
  intro zoned floating number cause
  obtain ⟨render, _, own, left, right, _, ordered⟩ := own_view_agrees_with_values .dateTime
  obtain ⟨_, _, _, _, _, unordered, _⟩ := own_view_agrees_with_values .boolean
  have foreign : number.dataType ≠ .dateTime := by decide
  have refused : zoned.compare floating = .error cause := rfl
  have shown : floating.text = "1970-01-01T00:00:00" := by decide +kernel
  refine ⟨⟨rfl, rfl, foreign⟩, refused, ?_, left number zoned foreign,
    right zoned number rfl foreign, ?_, ⟨rfl, unordered rfl _ _ rfl rfl⟩, rfl,
    ordered rfl (by decide) zoned zoned⟩
  · rw [own zoned floating rfl rfl, refused]
    rfl
  · rw [render floating rfl, shown]

end PolicyValues.DataType
