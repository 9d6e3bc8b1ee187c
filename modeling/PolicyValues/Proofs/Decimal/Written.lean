import Mathlib.Algebra.Order.Ring.Abs
import Mathlib.Data.List.DropRight
import Mathlib.Tactic.Positivity
import PolicyValues.Proofs.Decimal.Rational
import PolicyValues.Proofs.Text.Written

/-!
Written numbers against the decimals read from them. Zeros at either end change nothing, so a number
is read where what is left between them fits.
-/
namespace PolicyValues

namespace Digits

theorem value_replicate_append (zeros : ℕ) (ds : List Char) :
    value (List.replicate zeros '0' ++ ds) = value ds := by
  rw [value, Nat.ofDigitChars_append, Nat.ofDigitChars_replicate_zero, Nat.mul_zero]
  rfl

theorem value_append_replicate (ds : List Char) (zeros : ℕ) :
    value (ds ++ List.replicate zeros '0') = value ds * 10 ^ zeros := by
  have padding : value (List.replicate zeros '0') = 0 := by
    have padded := value_replicate_append zeros []
    rwa [List.append_nil] at padded
  rw [value_append, List.length_replicate, padding, Nat.add_zero]

theorem exists_leading_zeros (ds : List Char) :
    ∃ zeros, ds = List.replicate zeros '0' ++ ds.dropWhile (· == '0') := by
  refine ⟨(ds.takeWhile (· == '0')).length, ?_⟩
  have zeros : ds.takeWhile (· == '0') = List.replicate (ds.takeWhile (· == '0')).length '0' :=
    List.eq_replicate_iff.2 ⟨rfl, fun c hc =>
      beq_iff_eq.1 (List.all_eq_true.1 List.all_takeWhile c hc)⟩
  rw [← zeros, List.takeWhile_append_dropWhile]

theorem value_dropWhile (ds : List Char) : value (ds.dropWhile (· == '0')) = value ds := by
  obtain ⟨zeros, split⟩ := exists_leading_zeros ds
  conv => rhs; rw [split, value_replicate_append]

theorem exists_trailing_zeros (ds : List Char) :
    ∃ zeros, ds = Decimal.dropTrailingZeros ds ++ List.replicate zeros '0' := by
  obtain ⟨zeros, h⟩ := exists_leading_zeros ds.reverse
  refine ⟨zeros, ?_⟩
  have reversed := congrArg List.reverse h
  rwa [List.reverse_reverse, List.reverse_append, List.reverse_replicate] at reversed

namespace Written

def stripped (n : Written) : Written where
  whole := n.whole.dropWhile (· == '0')
  fraction := Decimal.dropTrailingZeros n.fraction

def toRat (n : Written) : ℚ := value (n.whole ++ n.fraction) / 10 ^ n.fraction.length

theorem lexical_ofNat (n : ℕ) : Lexical ⟨ofNat n, []⟩ where
  whole_ne := ofNat_ne_nil n
  whole := isDigit_of_mem_ofNat
  fraction := fun _ hc => absurd hc List.not_mem_nil

theorem toRat_nonneg (n : Written) : 0 ≤ n.toRat := by
  unfold toRat
  positivity

theorem toRat_integral (whole : List Char) : toRat ⟨whole, []⟩ = value whole := by
  simp only [toRat, List.append_nil, List.length_nil, pow_zero, div_one]

theorem value_stripped (n : Written) :
    value (n.stripped.whole ++ n.stripped.fraction) = value (n.whole ++ n.stripped.fraction) := by
  obtain ⟨zeros, h⟩ := exists_leading_zeros n.whole
  conv => rhs; rw [h, List.append_assoc, value_replicate_append]
  rfl

theorem toRat_stripped (n : Written) :
    (value (n.whole ++ n.stripped.fraction) / 10 ^ n.stripped.fraction.length : ℚ) = n.toRat := by
  obtain ⟨zeros, h⟩ := exists_trailing_zeros n.fraction
  have unit : (10 : ℚ) ^ zeros ≠ 0 := by positivity
  conv => rhs; rw [toRat, h, ← List.append_assoc, value_append_replicate, List.length_append,
    List.length_replicate, pow_add]
  push_cast
  exact (mul_div_mul_right _ _ unit).symm

end Written

end Digits

namespace Decimal

theorem chars_written {d : Decimal} (positive : d.negative = false) :
    d.written.chars = d.chars := by
  by_cases whole : d.scale = 0
  · simp only [Digits.Written.chars, written, chars, positive, whole, if_true, Bool.false_eq_true,
      if_false, List.nil_append, List.append_nil]
  · simp only [Digits.Written.chars, written, chars, positive, whole, if_false, Bool.false_eq_true,
      Digits.padded_ne_nil, List.nil_append]

theorem getLast?_written_ne {d : Decimal} (plain : d.Plain) :
    d.written.fraction.getLast? ≠ some '0' := by
  intro last
  have kept := List.rdropWhile_eq_self_iff.1 (dropTrailingZeros_written plain)
  obtain ⟨front, zero⟩ := List.getLast?_eq_some_iff.1 last
  rw [zero] at kept
  refine kept (List.concat_ne_nil '0' front) ?_
  rw [List.getLast_concat]
  rfl

theorem lexical_written (d : Decimal) : d.written.Lexical where
  whole_ne := Digits.ofNat_ne_nil d.whole
  whole := Digits.isDigit_of_mem_ofNat
  fraction := by
    unfold written
    split
    · exact fun _ hc => absurd hc List.not_mem_nil
    · exact Digits.isDigit_of_mem_padded

theorem toRat_written {d : Decimal} (positive : d.negative = false) :
    d.written.toRat = d.toRat := by
  rw [Digits.Written.toRat, value_written, length_written, toRat, positive]
  exact (one_mul _).symm

theorem exists_ofWrittenExact?_iff {n : Digits.Written} :
    (∃ d, ofWrittenExact? n = some d) ↔ n.stripped.fraction.length ≤ 28 ∧
      Digits.value (n.stripped.whole ++ n.stripped.fraction) < 2 ^ 96 := by
  rw [n.value_stripped]
  constructor
  · rintro ⟨d, found⟩
    obtain ⟨_, size, places⟩ := ofWrittenExact?_eq_some_iff.1 found
    exact ⟨places ▸ d.scale_le, size ▸ d.mantissa_lt⟩
  · rintro ⟨places, size⟩
    exact ⟨⟨false, _, _, size, places⟩, ofWrittenExact?_eq_some_iff.2 ⟨rfl, rfl, rfl⟩⟩

theorem toRat_of_ofWrittenExact? {n : Digits.Written} {d : Decimal}
    (h : ofWrittenExact? n = some d) : d.toRat = n.toRat := by
  obtain ⟨positive, size, places⟩ := ofWrittenExact?_eq_some_iff.1 h
  rw [← n.toRat_stripped, toRat, positive, size, places]
  exact one_mul _

theorem toRat_abs (d : Decimal) : d.abs.toRat = |d.toRat| := by
  have size : (0 : ℚ) ≤ d.mantissa / 10 ^ d.scale := by positivity
  simp only [toRat, abs, Bool.false_eq_true, if_false, one_mul, abs_mul, abs_of_nonneg size]
  cases d.negative <;> simp

theorem isZero_iff_toRat (d : Decimal) : d.isZero = true ↔ d.toRat = 0 := by
  have unit : (10 : ℚ) ^ d.scale ≠ 0 := by positivity
  have sign : (if d.negative then -1 else 1 : ℚ) ≠ 0 := by cases d.negative <;> simp
  rw [isZero, beq_iff_eq, toRat, mul_eq_zero, or_iff_right sign, div_eq_zero_iff,
    or_iff_left unit, Nat.cast_eq_zero]

end Decimal

end PolicyValues
