import Mathlib.Algebra.Order.Floor.Semifield
import Mathlib.Data.Rat.Floor
import PolicyValues.Proofs.Decimal.Written

/-!
Sign and size of decimals as rational numbers, and decimals cut to whole numbers or thousandths. All
cuts go toward zero.
-/
namespace PolicyValues

/-- The whole part of a number, without the rest that leads away from zero. -/
def towardZero (q : ℚ) : ℤ := if q < 0 then ⌈q⌉ else ⌊q⌋

theorem towardZero_of_nonneg {q : ℚ} (h : 0 ≤ q) : towardZero q = ⌊q⌋ := if_neg (not_lt.2 h)

theorem towardZero_neg (q : ℚ) : towardZero (-q) = -towardZero q := by
  rcases lt_trichotomy q 0 with below | rfl | above
  · rw [towardZero_of_nonneg (neg_nonneg.2 below.le), towardZero, if_pos below, Int.floor_neg]
  · rw [neg_zero, towardZero_of_nonneg (le_refl 0), Int.floor_zero, neg_zero]
  · rw [towardZero_of_nonneg above.le, towardZero, if_pos (neg_lt_zero.2 above), Int.ceil_neg]

namespace Decimal

theorem abs_toRat (d : Decimal) : |d.toRat| = d.mantissa / 10 ^ d.scale := by
  rw [← toRat_abs]
  exact one_mul _

theorem toRat_of_positive {d : Decimal} (positive : d.negative = false) :
    d.toRat = d.mantissa / 10 ^ d.scale := by
  rw [toRat, positive]
  exact one_mul _

theorem toRat_eq_abs (d : Decimal) : d.toRat = (if d.negative then -1 else 1) * |d.toRat| := by
  rw [abs_toRat, toRat]

theorem toRat_nonneg {d : Decimal} (positive : d.negative = false) : 0 ≤ d.toRat := by
  rw [toRat_of_positive positive]
  positivity

theorem toRat_neg_iff {d : Decimal} :
    d.toRat < 0 ↔ d.negative = true ∧ d.isZero = false := by
  rw [Bool.eq_false_iff, Ne, isZero_iff_toRat, toRat_eq_abs]
  cases d.negative <;> simp

theorem floor_abs_toRat (d : Decimal) : ⌊|d.toRat|⌋₊ = d.whole := by
  have quotient := Nat.floor_div_eq_div (K := ℚ) d.mantissa (10 ^ d.scale)
  push_cast at quotient
  rw [abs_toRat, quotient, whole]

theorem whole_normalize (d : Decimal) : d.normalize.whole = d.whole := by
  rw [← floor_abs_toRat, toRat_normalize, floor_abs_toRat]

theorem thousandths_split (d : Decimal) :
    d.thousandths = d.whole * 1000 + d.fraction.thousandths := by
  have unit : 0 < 10 ^ d.scale := Nat.pow_pos (by decide)
  have parts : d.mantissa * 1000 =
      d.mantissa % 10 ^ d.scale * 1000 + d.whole * 1000 * 10 ^ d.scale := by
    conv => lhs; rw [← Nat.mod_add_div' d.mantissa (10 ^ d.scale), Nat.add_mul, Nat.mul_right_comm]
    rfl
  rw [thousandths, parts, Nat.add_mul_div_right _ _ unit, Nat.add_comm]
  rfl

theorem floor_thousand_abs_toRat (d : Decimal) : ⌊1000 * |d.toRat|⌋ = d.thousandths := by
  have scaled : 1000 * |d.toRat| = (d.mantissa * 1000 : ℕ) / (10 ^ d.scale : ℕ) := by
    rw [abs_toRat]
    push_cast
    ring
  rw [scaled, Rat.floor_natCast_div_natCast, thousandths, Int.natCast_ediv]

theorem floor_thousand_toRat {d : Decimal} (positive : d.negative = false) :
    ⌊1000 * d.toRat⌋ = d.thousandths := by
  rw [← abs_of_nonneg (toRat_nonneg positive), floor_thousand_abs_toRat]

theorem towardZero_thousand_toRat (d : Decimal) :
    towardZero (1000 * d.toRat) = if d.negative then -(d.thousandths : ℤ) else d.thousandths := by
  have size : towardZero (1000 * |d.toRat|) = d.thousandths := by
    rw [towardZero_of_nonneg (by positivity), floor_thousand_abs_toRat]
  rw [toRat_eq_abs, mul_left_comm]
  cases d.negative with
  | false => rw [if_neg Bool.false_ne_true, if_neg Bool.false_ne_true, one_mul, size]
  | true => rw [if_pos rfl, if_pos rfl, neg_one_mul, towardZero_neg, size]

theorem thousandfold_iff (d : Decimal) :
    2 ^ 96 ≤ d.mantissa * 10 ^ (3 - d.scale) ↔ 2 ^ 96 ≤ 1000 * |d.toRat| := by
  have unit : (0 : ℚ) < 10 ^ d.scale := by positivity
  have scaled : 2 ^ 96 * 10 ^ d.scale ≤ d.mantissa * 10 ^ 3 ↔ 2 ^ 96 ≤ 1000 * |d.toRat| := by
    rw [abs_toRat, mul_div_assoc', le_div_iff₀ unit, mul_comm (1000 : ℚ)]
    exact_mod_cast Iff.rfl
  rw [← scaled]
  rcases Nat.le_total d.scale 3 with few | many
  · have split : 10 ^ 3 = 10 ^ (3 - d.scale) * 10 ^ d.scale := by
      rw [← Nat.pow_add, Nat.sub_add_cancel few]
    rw [split, ← Nat.mul_assoc]
    exact (Nat.mul_le_mul_right_iff (by positivity)).symm
  · have fits := d.mantissa_lt
    have room : 10 ^ 3 ≤ 10 ^ d.scale := Nat.pow_le_pow_right (by decide) many
    rw [Nat.sub_eq_zero_of_le many, Nat.pow_zero, Nat.mul_one]
    refine iff_of_false (Nat.not_le.2 fits) (Nat.not_le.2 ?_)
    calc d.mantissa * 10 ^ 3 < 2 ^ 96 * 10 ^ 3 := Nat.mul_lt_mul_of_pos_right fits (by decide)
      _ ≤ 2 ^ 96 * 10 ^ d.scale := Nat.mul_le_mul_left _ room

end Decimal

end PolicyValues
