import PolicyValues.Proofs.Double.Limit
import PolicyValues.Proofs.Double.Shortest

/-!
Doubles read back from their texts. A text shows the digits of the form, as a written number of the
same size, and the double is the nearest one to it.
-/
namespace PolicyValues

namespace Double

open WrittenDouble

namespace DecimalForm

variable {f : DecimalForm}

theorem value_split (f : DecimalForm) :
    (Digits.value (f.split.1 ++ f.split.2) : ℚ) * 10 ^ (-(f.split.2.length : ℤ)) = f.toRat := by
  unfold split
  split
  · rename_i small
    obtain ⟨k, place⟩ : ∃ k : ℕ, f.exponent = -k := ⟨(-f.exponent).toNat, by omega⟩
    have zeros : (['0'] : List Char) = List.replicate 1 '0' := rfl
    rw [toRat, place, neg_neg, Int.toNat_natCast, zeros, Digits.value_replicate_append,
      Digits.value_replicate_append, List.length_append, List.length_replicate]
    push_cast
    rw [neg_add]
    rfl
  · obtain ⟨k, place⟩ : ∃ k : ℕ, f.exponent = k := ⟨f.exponent.toNat, by omega⟩
    rw [toRat, place, Int.toNat_natCast]
    simp only
    rcases Nat.le_total f.digits.length k with short | long
    · rw [List.take_of_length_le short, List.drop_of_length_le short, List.append_nil,
        Digits.value_append_replicate, List.length_nil]
      rw [Nat.cast_mul, Nat.cast_pow, Nat.cast_zero, neg_zero, zpow_zero, mul_one, ← zpow_natCast,
        Nat.cast_sub short]
      rfl
    · rw [Nat.sub_eq_zero_of_le long, List.replicate_zero, List.append_nil, List.take_append_drop,
        List.length_drop, Nat.cast_sub long, neg_sub]

theorem Lexical.isDigit_split (h : f.Lexical) : ∀ c ∈ f.split.1 ++ f.split.2, c.isDigit = true := by
  have zeros (k : ℕ) : ∀ c ∈ List.replicate k '0', c.isDigit = true := by
    intro c mem
    rw [List.eq_of_mem_replicate mem]
    rfl
  unfold split
  split
  · exact List.forall_mem_append.2 ⟨zeros 1, List.forall_mem_append.2 ⟨zeros _, h.all_digits⟩⟩
  · refine List.forall_mem_append.2 ⟨List.forall_mem_append.2 ⟨?_, zeros _⟩, ?_⟩
    · exact fun c mem => h.all_digits c (List.mem_of_mem_take mem)
    · exact fun c mem => h.all_digits c (List.mem_of_mem_drop mem)

theorem Lexical.exists_positional (h : f.Lexical) (sign : Sign) : ∃ w : WrittenDouble,
    w.chars = sign.chars ++ positional f ∧ w.sign = sign ∧ w.size = f.toRat := by
  have digits := h.isDigit_split
  have value := f.value_split
  unfold positional
  simp only
  generalize f.split.1 = whole at *
  generalize f.split.2 = fraction at *
  obtain ⟨whole_digits, fraction_digits⟩ := List.forall_mem_append.1 digits
  by_cases none : fraction = []
  · let w : WrittenDouble := ⟨sign, whole, some ['0'], .none, by simp,
      List.forall_mem_append.2 ⟨whole_digits, List.forall_mem_singleton.2 rfl⟩⟩
    have digits : w.digits = whole ++ List.replicate 1 '0' := rfl
    have place : w.place = -1 := rfl
    refine ⟨w, ?_, rfl, ?_⟩
    · rw [if_pos none, WrittenDouble.chars, powerChars, List.append_nil]
      rfl
    · rw [none, List.append_nil, List.length_nil] at value
      rw [← value, WrittenDouble.size, digits, place, Digits.value_append_replicate]
      simp
  · let w : WrittenDouble := ⟨sign, whole, some fraction, .none, by simp [none], digits⟩
    have place : w.place = -(fraction.length : ℤ) := zero_sub _
    refine ⟨w, ?_, rfl, ?_⟩
    · rw [if_neg none, WrittenDouble.chars, powerChars, List.append_nil]
      rfl
    · rw [← value, WrittenDouble.size, place]
      rfl

theorem Lexical.exists_scientific (h : f.Lexical) (sign : Sign) : ∃ w : WrittenDouble,
    w.chars = sign.chars ++ f.scientific ∧ w.sign = sign ∧ w.size = f.toRat := by
  obtain ⟨exponent, chars, value⟩ := WrittenInteger.exists_ofInt (f.exponent - 1)
  obtain ⟨d, more, cons⟩ := List.exists_cons_of_ne_nil h.some_digit
  have all_digits := h.all_digits
  rw [cons] at all_digits
  let fraction := if more = [] then none else some more
  have shown : fraction.getD [] = more := by
    by_cases none : more = []
    · rw [show fraction = .none from if_pos none, none]
      rfl
    · rw [show fraction = some more from if_neg none]
      rfl
  have point : pointChars fraction = if more = [] then [] else '.' :: more := by
    simp only [fraction]
    split <;> rfl
  let w : WrittenDouble := ⟨sign, [d], fraction, some ⟨'e', exponent, .inl rfl⟩,
    List.cons_ne_nil _ _, by rwa [shown]⟩
  have digits : w.digits = d :: fraction.getD [] := rfl
  have place : w.place = exponent.value - (fraction.getD []).length := rfl
  have written : w.chars = sign.chars ++ ([d] ++ (pointChars fraction ++ 'e' :: exponent.chars)) := rfl
  refine ⟨w, ?_, rfl, ?_⟩
  · rw [written, point, chars, scientific, cons, List.append_assoc]
    rfl
  · rw [WrittenDouble.size, digits, place, shown, value, toRat, cons, List.length_cons, sub_sub,
      Nat.cast_succ, add_comm 1]

end DecimalForm

theorem exists_written_finiteChars (x : Double) : ∃ w : WrittenDouble,
    w.chars = x.finiteChars ∧ w.negative = x.negative ∧ w.size = x.form.toRat := by
  have lexical := x.form_nearest.1
  have signed (cs : List Char) :
      (if x.negative then Sign.minus else .unsigned).chars ++ cs = x.withSign cs := by
    unfold withSign
    split <;> rfl
  have negative (w : WrittenDouble) (sign : w.sign = if x.negative then .minus else .unsigned) :
      w.negative = x.negative := by
    rw [WrittenDouble.negative, sign]
    cases x.negative <;> rfl
  unfold finiteChars
  simp only
  split
  · obtain ⟨w, chars, sign, size⟩ :=
      lexical.exists_positional (if x.negative then .minus else .unsigned)
    exact ⟨w, chars.trans (signed _), negative w sign, size⟩
  · obtain ⟨w, chars, sign, size⟩ :=
      lexical.exists_scientific (if x.negative then .minus else .unsigned)
    exact ⟨w, chars.trans (signed _), negative w sign, size⟩

/-- Every double but NaN is read back from its text as it was, bit by bit. -/
theorem parse_text {x : Double} (number : x.isNaN = false) : parse x.text = .ok x := by
  rw [text, if_neg (Bool.eq_false_iff.1 number)]
  cases finite : x.isFinite with
  | true =>
    have small : x.sizeBits < infinityBits := of_decide_eq_true finite
    obtain ⟨w, chars, negative, size⟩ := x.exists_written_finiteChars
    have rounded := rounded_of_written w
    rw [negative, size] at rounded
    rw [if_neg (Bool.eq_false_iff.1 (isInfinite_of_finite finite)),
      parse_of_written (chars.trans String.toList_ofList.symm),
      rounded.eq_of_nearest x.form_nearest.2 small, ofSizeBits_self]
  | false =>
    have infinite := isInfinite_of_not_finite finite number
    rw [if_pos infinite]
    conv => rhs; rw [eq_infinity infinite]
    cases x.negative <;> rfl

end Double

end PolicyValues
