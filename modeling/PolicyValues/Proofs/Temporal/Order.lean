import PolicyValues.Proofs.Temporal.Basic

/-!
The order of instants. Comparing answers with an order or with the complaint that a zoned and a
floating instant are too close. The answers form a strict partial order with an equivalence, and a
mixed pair is ordered exactly if every offset of at most 14 hours orders it in the same way.
-/
namespace PolicyValues

def IsAmbiguous {ρ : Type} (answer : Except ValueError ρ) : Prop :=
  ∃ zoned floating, answer = .error (.ambiguous zoned floating)

/-- Two answers that agree up to the texts that a complaint shows. -/
structure SameAnswer {ρ : Type} (x y : Except ValueError ρ) : Prop where
  ok_iff : ∀ r, x = .ok r ↔ y = .ok r
  ambiguous_iff : IsAmbiguous x ↔ IsAmbiguous y

structure StrictPartialOrder {α ρ : Type} (decided : Ordering → Except ValueError ρ)
    (compare : α → α → Except ValueError ρ) : Prop where
  reverse : ∀ a b o, compare a b = decided o ↔ compare b a = decided o.swap
  ambiguous_comm : ∀ a b, IsAmbiguous (compare a b) ↔ IsAmbiguous (compare b a)
  refl : ∀ a, compare a a = decided .eq
  trans : ∀ a b c, compare a b = decided .lt → compare b c = decided .lt → compare a c = decided .lt
  congr : ∀ a b c, compare a b = decided .eq → SameAnswer (compare a c) (compare b c)

theorem StrictPartialOrder.comap {α β ρ : Type} {decided : Ordering → Except ValueError ρ}
    {compare : α → α → Except ValueError ρ} (h : StrictPartialOrder decided compare) (f : β → α) :
    StrictPartialOrder decided fun a b => compare (f a) (f b) where
  reverse a b := h.reverse (f a) (f b)
  ambiguous_comm a b := h.ambiguous_comm (f a) (f b)
  refl a := h.refl (f a)
  trans a b c := h.trans (f a) (f b) (f c)
  congr a b c := h.congr (f a) (f b) (f c)

theorem isAmbiguous_map {ρ σ : Type} (f : ρ → σ) (answer : Except ValueError ρ) :
    IsAmbiguous (answer.map f) ↔ IsAmbiguous answer := by
  cases answer <;> simp only [IsAmbiguous, Except.map, reduceCtorEq, Except.error.injEq]

theorem map_some_eq_ok_some {ρ : Type} (answer : Except ValueError ρ) (r : ρ) :
    answer.map some = .ok (some r) ↔ answer = .ok r := by
  cases answer <;> simp only [Except.map, reduceCtorEq, Except.ok.injEq, Option.some.injEq]

theorem SameAnswer.map_some {ρ : Type} {x y : Except ValueError ρ} (h : SameAnswer x y) :
    SameAnswer (x.map some) (y.map some) where
  ok_iff r := by
    cases r with
    | none => cases x <;> cases y <;> simp only [Except.map, reduceCtorEq, Except.ok.injEq]
    | some r => rw [map_some_eq_ok_some, map_some_eq_ok_some, h.ok_iff]
  ambiguous_iff := by rw [isAmbiguous_map, isAmbiguous_map, h.ambiguous_iff]

namespace DateTime

def SameKind (a b : DateTime) : Prop := a.zone.isSome = b.zone.isSome

def Apart (a b : DateTime) : Prop := bandMillis < (a.epochMillis - b.epochMillis).natAbs

theorem compare_sub_zero (a b : Int) : Ord.compare (a - b) 0 = Ord.compare a b := by
  cases h : Ord.compare a b
  · rw [Int.compare_eq_lt] at h ⊢; omega
  · rw [Int.compare_eq_eq] at h ⊢; omega
  · rw [Int.compare_eq_gt] at h ⊢; omega

theorem compare_eq_of_sub_eq {a b c d : Int} (h : a - b = c - d) :
    Ord.compare a b = Ord.compare c d := by
  rw [← compare_sub_zero, h, compare_sub_zero]

theorem compareMixed_of_apart {zoned floating : DateTime} (far : Apart zoned floating) :
    compareMixed zoned floating = .ok (Ord.compare zoned.epochMillis floating.epochMillis) := by
  simp only [Apart] at far
  simp only [compareMixed, if_pos far, compare_sub_zero]

theorem compareMixed_of_not_apart {zoned floating : DateTime} (near : ¬ Apart zoned floating) :
    compareMixed zoned floating = .error (.ambiguous zoned.text floating.text) := by
  simp only [Apart] at near
  simp only [compareMixed, if_neg near]

theorem apart_comm (a b : DateTime) : Apart a b ↔ Apart b a := by
  unfold Apart
  omega

theorem compare_of_decided {a b : DateTime} (h : SameKind a b ∨ Apart a b) :
    a.compare b = .ok (Ord.compare a.epochMillis b.epochMillis) := by
  unfold SameKind at h
  unfold DateTime.compare
  cases ha : a.zone <;> cases hb : b.zone <;> simp only [ha, hb, Option.isSome_none,
    Option.isSome_some, reduceCtorEq, false_or] at h ⊢
  · rw [compareMixed_of_apart ((apart_comm a b).1 h), Except.map, Int.compare_swap]
  · exact compareMixed_of_apart h

theorem isAmbiguous_compare {a b : DateTime} (h : ¬ (SameKind a b ∨ Apart a b)) :
    IsAmbiguous (a.compare b) := by
  unfold SameKind at h
  unfold DateTime.compare
  cases ha : a.zone <;> cases hb : b.zone <;> simp only [ha, hb, Option.isSome_none,
    Option.isSome_some, reduceCtorEq, false_or, true_or, not_true] at h ⊢
  · rw [compareMixed_of_not_apart (mt (apart_comm a b).2 h)]
    exact ⟨_, _, rfl⟩
  · rw [compareMixed_of_not_apart h]
    exact ⟨_, _, rfl⟩

theorem compare_eq_ok_iff (a b : DateTime) (o : Ordering) :
    a.compare b = .ok o ↔
      (SameKind a b ∨ Apart a b) ∧ Ord.compare a.epochMillis b.epochMillis = o := by
  by_cases h : SameKind a b ∨ Apart a b
  · rw [compare_of_decided h, Except.ok.injEq, and_iff_right h]
  · obtain ⟨zoned, floating, answer⟩ := isAmbiguous_compare h
    simp only [answer, reduceCtorEq, h, false_and]

theorem isAmbiguous_compare_iff (a b : DateTime) :
    IsAmbiguous (a.compare b) ↔ ¬ (SameKind a b ∨ Apart a b) := by
  refine ⟨fun ambiguous h => ?_, isAmbiguous_compare⟩
  obtain ⟨zoned, floating, answer⟩ := ambiguous
  rw [compare_of_decided h] at answer
  simp only [reduceCtorEq] at answer

theorem decided_comm (a b : DateTime) : SameKind a b ∨ Apart a b ↔ SameKind b a ∨ Apart b a := by
  rw [apart_comm]
  unfold SameKind
  rw [eq_comm]

/-- A chain of decided steps ends apart enough to be decided itself. -/
theorem decided_trans {a b c : DateTime} (hab : SameKind a b ∨ Apart a b)
    (hbc : SameKind b c ∨ Apart b c) (lt_ab : a.epochMillis < b.epochMillis)
    (lt_bc : b.epochMillis < c.epochMillis) : SameKind a c ∨ Apart a c := by
  unfold SameKind Apart at *
  -- One step that is further than the band makes the whole chain so.
  rcases hab with same_ab | far_ab
  · rcases hbc with same_bc | far_bc
    · exact .inl (same_ab.trans same_bc)
    · right; omega
  · right
    unfold bandMillis at *
    omega

theorem sameKind_of_eq {a b : DateTime} (h : SameKind a b ∨ Apart a b)
    (instant : a.epochMillis = b.epochMillis) : SameKind a b := by
  rcases h with same | far
  · exact same
  · unfold Apart bandMillis at far
    omega

theorem compare_strictPartialOrder : StrictPartialOrder .ok DateTime.compare where
  reverse a b o := by
    rw [compare_eq_ok_iff, compare_eq_ok_iff, decided_comm, ← Int.compare_swap a.epochMillis,
      Ordering.swap_inj]
  ambiguous_comm a b := by
    rw [isAmbiguous_compare_iff, isAmbiguous_compare_iff, decided_comm]
  refl a := (compare_eq_ok_iff a a .eq).2 ⟨.inl rfl, Int.compare_eq_eq.2 rfl⟩
  trans a b c hab hbc := by
    rw [compare_eq_ok_iff, Int.compare_eq_lt] at *
    exact ⟨decided_trans hab.1 hbc.1 hab.2 hbc.2, Int.lt_trans hab.2 hbc.2⟩
  congr a b c hab := by
    rw [compare_eq_ok_iff, Int.compare_eq_eq] at hab
    obtain ⟨decided, instant⟩ := hab
    have kind := sameKind_of_eq decided instant
    have same : SameKind a c ∨ Apart a c ↔ SameKind b c ∨ Apart b c := by
      unfold SameKind Apart at *
      rw [kind, instant]
    exact ⟨fun o => by rw [compare_eq_ok_iff, compare_eq_ok_iff, same, instant],
      by rw [isAmbiguous_compare_iff, isAmbiguous_compare_iff, same]⟩

def millisAt (d : DateTime) (offset : Int) : Int := d.wall.millis - 60000 * offset

/-- A zoned instant has one order to a floating reading, at whichever offset of 14 hours or less. -/
def OrderedAtEveryOffset (zoned floating : DateTime) (o : Ordering) : Prop :=
  ∀ offset : Int, -840 ≤ offset → offset ≤ 840 →
    Ord.compare zoned.epochMillis (floating.millisAt offset) = o

theorem orderedAtEveryOffset_iff (zoned : DateTime) {floating : DateTime}
    (h : floating.zone = none) (o : Ordering) :
    OrderedAtEveryOffset zoned floating o ↔
      Ord.compare zoned.epochMillis floating.epochMillis = o ∧ Apart zoned floating := by
  have read_as_utc : floating.epochMillis = floating.wall.millis := by simp only [epochMillis, h]
  unfold OrderedAtEveryOffset Apart millisAt bandMillis
  rw [read_as_utc]
  cases o
  · simp only [Int.compare_eq_lt]
    refine ⟨fun every => ?_, fun ⟨lt, far⟩ offset _ _ => by omega⟩
    -- The reading at the largest offset is the earliest.
    have east := every 840 (by omega) (by omega)
    omega
  · simp only [Int.compare_eq_eq]
    refine ⟨fun every => ?_, fun ⟨eq, far⟩ => by omega⟩
    -- Neighbouring offsets are a minute apart, so no instant equals both.
    have here := every 0 (by omega) (by omega)
    have beside := every 1 (by omega) (by omega)
    omega
  · simp only [Int.compare_eq_gt]
    refine ⟨fun every => ?_, fun ⟨gt, far⟩ offset _ _ => by omega⟩
    have west := every (-840) (by omega) (by omega)
    omega

/-- Across kinds the comparison finds what all offsets of a floating clock agree on. -/
theorem compare_eq_ok_iff_orderedAtEveryOffset (zoned floating : DateTime)
    (known : zoned.zone.isSome = true) (unknown : floating.zone = none) :
    (∀ o, zoned.compare floating = .ok o ↔ OrderedAtEveryOffset zoned floating o) ∧
      (IsAmbiguous (zoned.compare floating) ↔ ¬ ∃ o, OrderedAtEveryOffset zoned floating o) ∧
      (∀ o, floating.compare zoned = .ok o.swap ↔ OrderedAtEveryOffset zoned floating o) ∧
      (IsAmbiguous (floating.compare zoned) ↔ ¬ ∃ o, OrderedAtEveryOffset zoned floating o) := by
  have kinds : ¬ SameKind zoned floating := by
    simp only [SameKind, known, unknown, Option.isSome_none, reduceCtorEq, not_false_eq_true]
  have ok (o : Ordering) :
      zoned.compare floating = .ok o ↔ OrderedAtEveryOffset zoned floating o := by
    rw [compare_eq_ok_iff, orderedAtEveryOffset_iff zoned unknown, or_iff_right kinds, and_comm]
  have ambiguous : IsAmbiguous (zoned.compare floating) ↔
      ¬ ∃ o, OrderedAtEveryOffset zoned floating o := by
    simp only [isAmbiguous_compare_iff, orderedAtEveryOffset_iff zoned unknown, or_iff_right kinds,
      exists_and_right, exists_eq', true_and]
  have order := compare_strictPartialOrder
  exact ⟨ok, ambiguous, fun o => by rw [← order.reverse, ok],
    by rw [← order.ambiguous_comm, ambiguous]⟩

theorem epoch_orderedAtEveryOffset :
    let zoned : DateTime := ⟨.ofDay .epoch .midnight, some .utc⟩
    let floating : DateTime := ⟨.ofDay .epoch ⟨50400001, by decide⟩, none⟩
    zoned.zone.isSome = true ∧ floating.zone = none ∧ zoned.compare floating = .ok .lt ∧
      OrderedAtEveryOffset zoned floating .lt :=
  ⟨rfl, rfl, rfl, ((compare_eq_ok_iff_orderedAtEveryOffset _ _ rfl rfl).1 .lt).1 rfl⟩

end DateTime

namespace Temporal

theorem compare_value (a b : Temporal) :
    a.value.compare b.value =
      if a.dataType = b.dataType then (a.instant.compare b.instant).map some else .ok none := by
  cases a <;> cases b <;> rfl

theorem compare_value_eq_ok_some_iff (a b : Temporal) (o : Ordering) :
    a.value.compare b.value = .ok (some o) ↔
      a.dataType = b.dataType ∧ a.instant.compare b.instant = .ok o := by
  rw [compare_value]
  split
  · simp only [map_some_eq_ok_some, true_and, *]
  · simp only [Except.ok.injEq, reduceCtorEq, false_and, *]

theorem isAmbiguous_compare_value_iff (a b : Temporal) :
    IsAmbiguous (a.value.compare b.value) ↔
      a.dataType = b.dataType ∧ IsAmbiguous (a.instant.compare b.instant) := by
  rw [compare_value]
  split
  · simp only [isAmbiguous_map, true_and, *]
  · simp only [IsAmbiguous, reduceCtorEq, exists_false, false_and, *]

theorem compare_value_strictPartialOrder :
    StrictPartialOrder (fun o => .ok (some o)) fun a b : Temporal => a.value.compare b.value where
  reverse a b o := by
    rw [compare_value_eq_ok_some_iff, compare_value_eq_ok_some_iff,
      DateTime.compare_strictPartialOrder.reverse, eq_comm]
  ambiguous_comm a b := by
    rw [isAmbiguous_compare_value_iff, isAmbiguous_compare_value_iff,
      DateTime.compare_strictPartialOrder.ambiguous_comm, eq_comm]
  refl a := (compare_value_eq_ok_some_iff a a .eq).2
    ⟨rfl, DateTime.compare_strictPartialOrder.refl _⟩
  trans a b c hab hbc := by
    rw [compare_value_eq_ok_some_iff] at *
    exact ⟨hab.1.trans hbc.1, DateTime.compare_strictPartialOrder.trans _ _ _ hab.2 hbc.2⟩
  congr a b c hab := by
    rw [compare_value_eq_ok_some_iff] at hab
    have same := DateTime.compare_strictPartialOrder.congr _ _ c.instant hab.2
    rw [compare_value, compare_value, hab.1]
    split
    · exact same.map_some
    · exact ⟨fun _ => Iff.rfl, Iff.rfl⟩

end Temporal

/-- Decided chains of instants stay decided, whichever of them are zoned and whichever floating. -/
theorem temporal_strictPartialOrder :
    StrictPartialOrder .ok DateTime.compare ∧ StrictPartialOrder .ok Date.compare ∧
      StrictPartialOrder .ok Time.compare ∧
      StrictPartialOrder (fun o => .ok (some o)) fun a b : Temporal => a.value.compare b.value :=
  ⟨DateTime.compare_strictPartialOrder, DateTime.compare_strictPartialOrder.comap Date.toDateTime,
    DateTime.compare_strictPartialOrder.comap Time.toDateTime,
    Temporal.compare_value_strictPartialOrder⟩

end PolicyValues
