import PolicyValues.Proofs.Duration.RoundTrip

/-!
The amounts of a duration as rational numbers, one for each component. With the sign they are all
there is to it. A written number is taken for a component where the amount can be kept exactly.
-/
namespace PolicyValues

theorem Duration.Component.forall_iff {P : Component → Prop} :
    (∀ component, P component) ↔
      P years ∧ P months ∧ P days ∧ P hours ∧ P minutes ∧ P seconds := by
  refine ⟨fun all => ⟨all _, all _, all _, all _, all _, all _⟩, ?_⟩
  rintro ⟨years, months, days, hours, minutes, seconds⟩ component
  cases component <;> assumption

namespace Magnitudes
open Duration

def amount (size : Magnitudes) : Component → ℚ
  | .years => size.years.toNat
  | .months => size.months.toNat
  | .days => size.days.toNat
  | .hours => size.hours.toNat
  | .minutes => size.minutes.toNat
  | .seconds => size.seconds.toRat

theorem count_eq_zero_iff (n : UInt64) : (n.toNat : ℚ) = 0 ↔ n = 0 := by
  rw [Nat.cast_eq_zero, ← UInt64.toNat_inj]
  rfl

theorem isZero_iff_amount (size : Magnitudes) :
    size.isZero = true ↔ ∀ component, size.amount component = 0 := by
  simp only [isZero, Component.forall_iff, amount, count_eq_zero_iff, Bool.and_eq_true, beq_iff_eq,
    Decimal.isZero_iff_toRat, and_assoc]

theorem hasTime_eq_false_iff_amount (size : Magnitudes) :
    size.hasTime = false ↔ size.amount .hours = 0 ∧ size.amount .minutes = 0 ∧
      size.amount .seconds = 0 := by
  simp only [hasTime, amount, count_eq_zero_iff, Bool.or_eq_false_iff, bne_eq_false_iff_eq,
    Bool.not_eq_false', Decimal.isZero_iff_toRat, and_assoc]

theorem amount_nothing (component : Component) : amount {} component = 0 :=
  (isZero_iff_amount {}).1 rfl component

end Magnitudes

namespace Duration

theorem amount_signed (negative : Bool) {size : Magnitudes} (seconds : 0 ≤ size.amount .seconds)
    (component : Component) :
    (signed negative size).amount component = size.amount component := by
  cases component with
  | seconds =>
    have exact_seconds : size.seconds.abs.normalize.toRat = size.seconds.toRat := by
      rw [Decimal.toRat_normalize, Decimal.toRat_abs]
      exact abs_of_nonneg seconds
    exact exact_seconds
  | _ => rfl

theorem negative_signed (negative : Bool) (size : Magnitudes) :
    (signed negative size).negative = true ↔
      negative = true ∧ ∃ component, (signed negative size).amount component ≠ 0 := by
  have sized := (signed negative size).isZero_iff_amount
  have sign : (signed negative size).negative =
      (negative && !(signed negative size).toMagnitudes.isZero) := rfl
  rw [sign, Bool.and_eq_true, Bool.not_eq_true', Bool.eq_false_iff, Ne, sized, not_forall]

theorem eq_of_amount {d e : Duration}
    (amount : ∀ component, d.amount component = e.amount component)
    (negative : d.negative = e.negative) : d = e := by
  obtain ⟨years, months, days, hours, minutes, seconds⟩ := Component.forall_iff.1 amount
  have same : d.toMagnitudes = e.toMagnitudes := by
    have normal {u : Duration} : u.seconds.Normal :=
      ⟨u.plain.stripped, fun below => absurd below (by rw [u.plain.positive]; decide)⟩
    simp only [Magnitudes.amount, Nat.cast_inj, UInt64.toNat_inj] at years months days hours minutes
    have seconds : d.seconds = e.seconds := normal.eq_of_toRat normal seconds
    calc d.toMagnitudes = ⟨d.years, d.months, d.days, d.hours, d.minutes, d.seconds⟩ := rfl
      _ = e.toMagnitudes := by rw [years, months, days, hours, minutes, seconds]
  rw [← d.signed_toMagnitudes, ← e.signed_toMagnitudes, same, negative]

/-! ## Amounts as they are written -/

namespace Component

/-- Seconds fit a decimal without the zeros that pad them; the rest are whole and fit 64 bits. -/
def Takes (component : Component) (n : Digits.Written) : Prop :=
  if component = seconds then
    n.stripped.fraction.length ≤ 28 ∧
      Digits.value (n.stripped.whole ++ n.stripped.fraction) < 2 ^ 96
  else n.fraction = [] ∧ Digits.value n.whole < 2 ^ 64

theorem exists_set_iff {component : Component} {n : Digits.Written} {before : List Char}
    {size : Magnitudes} (lexical : n.Lexical) :
    (∃ sized, component.set n before size = .ok sized) ↔ component.Takes n := by
  by_cases fractional : component = seconds
  · simp only [set, Takes, fractional, if_true, Decimal.readExact?_eq lexical]
    rw [← Decimal.exists_ofWrittenExact?_iff]
    cases Decimal.ofWrittenExact? n with
    | none => simp only [reduceCtorEq, exists_false]
    | some exact => simp only [Except.ok.injEq, Option.some.injEq, exists_eq']
  · simp only [set, Takes, fractional, if_false]
    by_cases whole : n.fraction = []
    · by_cases small : Digits.value n.whole < 2 ^ 64
      · simp only [whole, ne_eq, not_true_eq_false, if_false, Nat.not_le.2 small, small, and_self,
          Except.ok.injEq, exists_eq']
      · simp only [whole, ne_eq, not_true_eq_false, if_false, Nat.not_lt.1 small, small, if_true,
          reduceCtorEq, exists_false, and_false]
    · simp only [whole, ne_eq, not_false_eq_true, if_true, reduceCtorEq, exists_false, false_and]

theorem amount_of_set {component : Component} {n : Digits.Written} {before : List Char}
    {size sized : Magnitudes} (lexical : n.Lexical) (h : component.set n before size = .ok sized)
    (other : Component) : sized.amount other = if other = component then n.toRat else size.amount other := by
  by_cases fractional : component = seconds
  · subst fractional
    simp only [set, if_true, Decimal.readExact?_eq lexical] at h
    split at h
    · rename_i exact found
      rw [← Except.ok.inj h]
      have value := Decimal.toRat_of_ofWrittenExact? found
      cases other <;> simp only [Magnitudes.amount, reduceCtorEq, if_false, if_true, value]
    · simp only [reduceCtorEq] at h
  · have taken : component.Takes n := (exists_set_iff lexical).1 ⟨sized, h⟩
    rw [Takes, if_neg fractional] at taken
    obtain ⟨whole, small⟩ := taken
    obtain ⟨ds, fraction⟩ := n
    simp only at whole small
    subst whole
    have value : ((UInt64.ofNat (Digits.value ds)).toNat : ℚ) = Digits.Written.toRat ⟨ds, []⟩ := by
      rw [Digits.Written.toRat_integral, UInt64.toNat_ofNat_of_lt' small]
    simp only [set, fractional, if_false, ne_eq, not_true_eq_false, Nat.not_le.2 small,
      Except.ok.injEq] at h
    subst h
    cases component <;> cases other <;>
      simp only [Magnitudes.amount, reduceCtorEq, if_false, if_true, value, not_true_eq_false] at *

end Component

end Duration

end PolicyValues
