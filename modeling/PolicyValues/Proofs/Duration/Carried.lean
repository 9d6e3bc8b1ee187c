import Mathlib.Tactic.FieldSimp
import PolicyValues.Proofs.Decimal.Cut
import PolicyValues.Proofs.Duration.Amounts
import PolicyValues.Proofs.Duration.Exact

/-!
Totals of seconds carried into minutes, hours and days. Nothing is rounded on the way, although the
addition that joins the seconds below a minute with their fraction would round what does not fit, so
the duration that comes out is as long as the total and leads back to it.
-/
namespace PolicyValues

namespace DayTimeDuration
open Decimal

theorem toRat_beyondMinutes (total : Decimal) :
    (beyondMinutes total).toRat = |total.toRat| - (total.whole / 60 * 60 : ℕ) := by
  have unit : (10 : ℚ) ^ total.scale ≠ 0 := by positivity
  have mantissa := congrArg (Nat.cast (R := ℚ)) (whole_minutes total)
  have scale : (beyondMinutes total).scale = total.scale := rfl
  rw [toRat_of_positive rfl, scale, abs_toRat, ← mantissa, eq_sub_iff_add_eq]
  push_cast
  field_simp
  ring

theorem toRat_beyondMinutes_lt (total : Decimal) : (beyondMinutes total).toRat < 60 := by
  have below : |total.toRat| < total.whole + 1 := by
    rw [← floor_abs_toRat]
    exact Nat.lt_floor_add_one _
  have seconds : total.whole + 1 ≤ total.whole / 60 * 60 + 60 := by omega
  rw [← Nat.cast_le (α := ℚ)] at seconds
  push_cast at seconds
  rw [toRat_beyondMinutes, sub_lt_iff_lt_add']
  push_cast
  exact lt_of_lt_of_le below seconds

theorem below_minute_lt (total : Decimal) : total.whole % 60 < 2 ^ 96 :=
  Nat.lt_trans (Nat.mod_lt _ (by decide)) (by decide)

theorem add?_fraction (total : Decimal) :
    (integral (total.whole % 60) (below_minute_lt total)).add? total.abs.fraction =
      some (beyondMinutes total) :=
  add?_of_whole (a := integral _ (below_minute_lt total)) (b := total.abs.fraction) rfl rfl rfl
    (beyondMinutes total).mantissa_lt

theorem amount_carry (total : Decimal) (component : Duration.Component) :
    (carry total).amount component =
      Magnitudes.amount
        { days := UInt64.ofNat (total.whole / 86400)
          hours := UInt64.ofNat (total.whole % 86400 / 3600)
          minutes := UInt64.ofNat (total.whole % 3600 / 60)
          seconds := beyondMinutes total } component :=
  Duration.amount_signed _ (toRat_nonneg rfl) component

theorem isZero_carry {total : Decimal} (empty : total.isZero = true) :
    (carry total).toMagnitudes.isZero = true := by
  have nothing : total.toRat = 0 := total.isZero_iff_toRat.1 empty
  have whole : total.whole = 0 := by rw [← floor_abs_toRat, nothing, abs_zero, Nat.floor_zero]
  refine (Magnitudes.isZero_iff_amount _).2 fun component => ?_
  rw [amount_carry]
  cases component <;> simp [Magnitudes.amount, toRat_beyondMinutes, nothing, whole]

theorem carry_normalize (total : Decimal) : carry total.normalize = carry total := by
  have amount (component : Duration.Component) :
      (carry total.normalize).amount component = (carry total).amount component := by
    rw [amount_carry, amount_carry]
    cases component <;>
      simp only [Magnitudes.amount, whole_normalize, toRat_beyondMinutes, toRat_normalize]
  have empty : (carry total.normalize).toMagnitudes.isZero = (carry total).toMagnitudes.isZero := by
    rw [Bool.eq_iff_iff, Magnitudes.isZero_iff_amount, Magnitudes.isZero_iff_amount]
    simp only [amount]
  have sign (t : Decimal) :
      (carry t).negative = (t.negative && !(carry t).toMagnitudes.isZero) := rfl
  have sign' : total.normalize.negative = (total.negative && !total.isZero) := rfl
  refine Duration.eq_of_amount amount ?_
  rw [sign, sign, empty, sign']
  cases zero : total.isZero with
  | true => simp only [isZero_carry zero, Bool.not_true, Bool.and_false]
  | false => simp only [Bool.not_false, Bool.and_true]

theorem ofTotalSeconds_eq (total : Decimal) :
    ofTotalSeconds total =
      if 2 ^ 64 ≤ total.whole then .error (.outOfRange .dayTimeDuration .tooManySeconds)
      else .ok ⟨carry total, total.normalize⟩ := rfl

theorem ofTotalSeconds_eq_ok_iff {total : Decimal} {d : DayTimeDuration} :
    ofTotalSeconds total = .ok d ↔ total.whole < 2 ^ 64 ∧ ⟨carry total, total.normalize⟩ = d := by
  rw [ofTotalSeconds_eq]
  split
  · rename_i large
    simp only [reduceCtorEq, Nat.not_lt.2 large, false_and]
  · rename_i small
    simp only [Except.ok.injEq, Nat.not_le.1 small, true_and]

theorem ofTotalSeconds_normalize (total : Decimal) :
    ofTotalSeconds total.normalize = ofTotalSeconds total := by
  rw [ofTotalSeconds_eq, ofTotalSeconds_eq, whole_normalize, carry_normalize,
    total.normal_normalize.normalize_eq]

section
variable {total : Decimal} (small : total.whole < 2 ^ 64)
include small

theorem ofDuration_carry : ofDuration (carry total) = .ok ⟨carry total, total.normalize⟩ := by
  have normal := total.normal_normalize
  rw [← whole_normalize] at small
  rw [← carry_normalize, ofDuration_of_dayTime rfl, totalSeconds_carry normal small, Except.map,
    normal.normalize_eq]

theorem keepsPlaces_carry : (carry total).KeepsPlaces := by
  have normal := total.normal_normalize
  rw [← whole_normalize] at small
  have size : (carry total.normalize).size = total.normalize.mantissa := by
    rw [Duration.size, seconds_carry normal, wholeUnits_carry small]
    exact whole_minutes total.normalize
  rw [← carry_normalize, Duration.KeepsPlaces, size]
  exact total.normalize.mantissa_lt

theorem length_carry : (carry total).length = total.toRat := by
  rw [← toRat_normalize]
  exact ((toRat_eq_length_iff (ofDuration_carry small)).2 (keepsPlaces_carry small)).symm

theorem negative_carry_iff : (carry total).negative = true ↔ total.toRat < 0 := by
  have normal := total.normal_normalize
  rw [← whole_normalize] at small
  rw [← carry_normalize, negative_carry normal small, ← toRat_normalize, toRat_neg_iff]
  refine ⟨fun below => ⟨below, ?_⟩, And.left⟩
  exact beq_eq_false_iff_ne.2 (normal.mantissa_ne below)

end

structure CarriedFrom (total : Decimal) (d : DayTimeDuration) : Prop where
  dayTime : d.duration.hasYearMonth = false
  hours_lt : d.duration.hours < 24
  minutes_lt : d.duration.minutes < 60
  seconds_lt : d.duration.seconds.toRat < 60
  seconds_eq : ((integral (total.whole % 60) (below_minute_lt total)).add?
    total.abs.fraction).map normalize = some d.duration.seconds
  negative_iff : d.duration.negative = true ↔ total.toRat < 0
  length_eq : d.duration.length = total.toRat
  total_eq : d.totalSeconds.toRat = total.toRat

theorem toNat_ofNat_lt {n bound : ℕ} (h : n < bound) : (UInt64.ofNat n).toNat < bound := by
  rw [UInt64.toNat_ofNat']
  exact Nat.lt_of_le_of_lt (Nat.mod_le _ _) h

theorem carriedFrom_carry {total : Decimal} (small : total.whole < 2 ^ 64) :
    CarriedFrom total ⟨carry total, total.normalize⟩ where
  dayTime := rfl
  hours_lt := by
    have hours : total.whole % 86400 / 3600 < 24 := by omega
    exact UInt64.lt_iff_toNat_lt.2 (toNat_ofNat_lt hours)
  minutes_lt := by
    have minutes : total.whole % 3600 / 60 < 60 := by omega
    exact UInt64.lt_iff_toNat_lt.2 (toNat_ofNat_lt minutes)
  seconds_lt := lt_of_eq_of_lt (amount_carry total .seconds) (toRat_beyondMinutes_lt total)
  seconds_eq := by
    rw [add?_fraction]
    rfl
  negative_iff := negative_carry_iff small
  length_eq := length_carry small
  total_eq := toRat_normalize total

/-- A total is refused from 2 ^ 64 seconds on. Any other is carried into larger units exactly; the
duration is read as what it was made from, and there is nothing left to be carried. -/
theorem total_carried_without_loss :
    (∀ total : Decimal,
      (2 ^ 64 ≤ ⌊|total.toRat|⌋₊ ∧
        ofTotalSeconds total = .error (.outOfRange .dayTimeDuration .tooManySeconds)) ∨
      ⌊|total.toRat|⌋₊ < 2 ^ 64 ∧
        ∃ d, ofTotalSeconds total = .ok d ∧ CarriedFrom total d ∧
          ofDuration d.duration = .ok d ∧ d.canonical = .ok d) ∧
    ∀ d : DayTimeDuration, d.canonical >>= canonical = d.canonical := by
  have settled {total : Decimal} (small : total.whole < 2 ^ 64) :
      canonical ⟨carry total, total.normalize⟩ = .ok ⟨carry total, total.normalize⟩ :=
    (ofTotalSeconds_normalize total).trans (ofTotalSeconds_eq_ok_iff.2 ⟨small, rfl⟩)
  refine ⟨fun total => ?_, fun d => ?_⟩
  · rw [floor_abs_toRat]
    rcases Nat.lt_or_ge total.whole (2 ^ 64) with small | large
    · exact .inr ⟨small, _, ofTotalSeconds_eq_ok_iff.2 ⟨small, rfl⟩, carriedFrom_carry small,
        ofDuration_carry small, settled small⟩
    · exact .inl ⟨large, by rw [ofTotalSeconds_eq, if_pos large]⟩
  · cases outcome : d.canonical with
    | error fault => rfl
    | ok e =>
      obtain ⟨small, rfl⟩ := ofTotalSeconds_eq_ok_iff.1 outcome
      exact settled small

example : (ofTotalSeconds ⟨true, 18446744073709551615999999990, 9, by decide, by decide⟩).map
    (fun d => (d.duration.text, d.totalSeconds.text)) =
      .ok ("-P213503982334601DT7H15.99999999S", "-18446744073709551615.99999999") := by
  decide +kernel

end DayTimeDuration

end PolicyValues
