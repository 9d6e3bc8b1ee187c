import PolicyValues.Proofs.Decimal.Written

/-!
Reading with rounding, and the comparison that lets through only what was not rounded. A digit
without a place is a zero that pads the fraction, or it shows in the comparison, so the number that
comes through is the exact one.
-/
namespace PolicyValues
open Text

namespace Decimal

open Digits (value)

variable {w : Digits.Written}

theorem mem_of_mem_dropTrailingZeros {c : Char} {ds : List Char} (mem : c ∈ dropTrailingZeros ds) :
    c ∈ ds :=
  List.mem_reverse.1 ((List.dropWhile_suffix _).subset (List.mem_reverse.1 mem))

theorem lexical_unpadded (lexical : w.Lexical) : (unpadded w).Lexical where
  whole_ne := by
    unfold unpadded
    simp only
    split
    · exact List.cons_ne_nil _ _
    · assumption
  whole := by
    unfold unpadded
    simp only
    split
    · exact fun c mem => by rw [List.mem_singleton.1 mem]; rfl
    · exact fun c mem => lexical.whole c ((List.dropWhile_suffix _).subset mem)
  fraction := fun c mem => lexical.fraction c (mem_of_mem_dropTrailingZeros mem)

theorem value_unpadded (w : Digits.Written) :
    value ((unpadded w).whole ++ (unpadded w).fraction) =
      value (w.whole ++ dropTrailingZeros w.fraction) := by
  rw [Digits.value_append, Digits.value_append, ← Digits.value_dropWhile w.whole]
  unfold unpadded
  simp only
  split
  · rename_i empty
    rw [empty]
    rfl
  · rfl

theorem ofNat_value_unpadded (lexical : w.Lexical) :
    Digits.ofNat (value (unpadded w).whole) = (unpadded w).whole := by
  have digits := (lexical_unpadded lexical).whole
  unfold unpadded at digits ⊢
  simp only at digits ⊢
  split
  · rfl
  · rename_i some_digit
    rw [if_neg some_digit] at digits
    refine Digits.ofNat_value digits some_digit fun leading => ?_
    have stops := stops_dropWhile (· == '0') w.whole
    rw [Stops, leading] at stops
    exact absurd stops (by decide)

theorem written_eq_unpadded {d : Decimal} (lexical : w.Lexical)
    (found : ofWrittenExact? w = some d) : d.written = unpadded w := by
  obtain ⟨_, size, places⟩ := ofWrittenExact?_eq_some_iff.1 found
  have lexical' := lexical_unpadded lexical
  have length : d.scale = (unpadded w).fraction.length := places
  have below := Digits.value_lt lexical'.fraction
  rw [← value_unpadded, Digits.value_append, ← length, Nat.add_comm, Nat.mul_comm] at size
  rw [← length] at below
  have unit : 0 < 10 ^ d.scale := Nat.zero_lt_of_lt below
  -- The two parts are quotient and remainder by the unit, and digits are told by their numbers.
  obtain ⟨quotient, remainder⟩ := (Nat.div_mod_unique unit).2 ⟨size.symm, below⟩
  have whole : d.written.whole = (unpadded w).whole := by
    rw [← ofNat_value_unpadded lexical, ← quotient]
    rfl
  have fraction : d.written.fraction = (unpadded w).fraction := by
    simp only [written, remainder]
    split
    · rename_i whole
      rw [whole] at length
      exact (List.length_eq_zero_iff.1 length.symm).symm
    · rename_i fractional
      rw [length] at fractional ⊢
      exact Digits.padded_value lexical'.fraction
        (List.ne_nil_of_length_pos (Nat.pos_of_ne_zero fractional))
  calc d.written = ⟨d.written.whole, d.written.fraction⟩ := rfl
    _ = unpadded w := by rw [whole, fraction]

theorem plain_of_ofWrittenExact? {d : Decimal} (lexical : w.Lexical)
    (found : ofWrittenExact? w = some d) : d.Plain where
  positive := (ofWrittenExact?_eq_some_iff.1 found).1
  stripped := by
    obtain ⟨_, size, places⟩ := ofWrittenExact?_eq_some_iff.1 found
    refine strip_of_mod_ne fun fractional => ?_
    rw [places] at fractional
    have some_digit : w.fraction.rdropWhile (· == '0') ≠ [] :=
      List.ne_nil_of_length_pos (Nat.pos_of_ne_zero fractional)
    have last := List.rdropWhile_last_not (· == '0') w.fraction some_digit
    have digit := (lexical_unpadded lexical).fraction _ (List.getLast_mem some_digit)
    have split := List.dropLast_concat_getLast some_digit
    change (dropTrailingZeros w.fraction).dropLast ++ _ = dropTrailingZeros w.fraction at split
    generalize (w.fraction.rdropWhile (· == '0')).getLast some_digit = d at last digit split
    rw [size, ← split, ← List.append_assoc, Digits.value_append, Digits.value_singleton,
      List.length_singleton, Nat.pow_one]
    have low := Digits.low_of_isDigit digit
    have high := Digits.high_of_isDigit digit
    have other : d.toNat ≠ 48 := fun zero => last (beq_iff_eq.2 (Char.toNat_inj.1 zero))
    omega

theorem push?_of_lt {d : Decimal} {scale : Nat} (le : scale ≤ 28) {c : Char}
    (fits : 10 * d.mantissa + (c.toNat - 48) < 2 ^ 96) : d.push? scale le c =
      some ⟨d.negative, 10 * d.mantissa + (c.toNat - 48), scale, fits, le⟩ := dif_pos fits

theorem foldlM_push? {d : Decimal} (whole : d.scale = 0) (ds : List Char)
    (fits : Nat.ofDigitChars 10 ds d.mantissa < 2 ^ 96) :
    ds.foldlM (fun d c => d.push? 0 (Nat.zero_le 28) c) d =
      some ⟨d.negative, Nat.ofDigitChars 10 ds d.mantissa, 0, fits, Nat.zero_le 28⟩ := by
  induction ds generalizing d with
  | nil => exact congrArg some (mk_eq rfl rfl whole.symm).symm
  | cons c cs ih =>
    rw [Nat.ofDigitChars_cons] at fits
    have room : 10 * d.mantissa + (c.toNat - 48) < 2 ^ 96 :=
      Nat.lt_of_le_of_lt (Digits.le_ofDigitChars cs _) fits
    rw [List.foldlM_cons, push?_of_lt _ room]
    exact ih rfl fits

theorem readFraction?_cons {d : Decimal} {c : Char} (cs : List Char) (room : d.scale < 28)
    (fits : 10 * d.mantissa + (c.toNat - 48) < 2 ^ 96) : d.readFraction? (c :: cs) =
      readFraction? ⟨d.negative, 10 * d.mantissa + (c.toNat - 48), d.scale + 1, fits, room⟩ cs := by
  simp only [readFraction?, nextPlace?, room, dite_true, push?_of_lt room fits]

theorem readFraction?_append {d : Decimal} {ds : List Char} (more : List Char)
    (places : d.scale + ds.length ≤ 28) (fits : Nat.ofDigitChars 10 ds d.mantissa < 2 ^ 96) :
    d.readFraction? (ds ++ more) = readFraction?
      ⟨d.negative, Nat.ofDigitChars 10 ds d.mantissa, d.scale + ds.length, fits, places⟩ more := by
  induction ds generalizing d with
  | nil => rfl
  | cons c cs ih =>
    rw [List.length_cons] at places
    rw [Nat.ofDigitChars_cons] at fits
    have room : 10 * d.mantissa + (c.toNat - 48) < 2 ^ 96 :=
      Nat.lt_of_le_of_lt (Digits.le_ofDigitChars cs _) fits
    rw [List.cons_append, readFraction?_cons _ (by omega) room]
    refine (ih (by simp only; omega) fits).trans (congrArg (readFraction? · more) ?_)
    exact mk_eq rfl rfl (by simp only [List.length_cons]; omega)

theorem normalize_push_zero (d : Decimal) (room : d.scale + 1 ≤ 28) {fits : 10 * d.mantissa < 2 ^ 96} :
    normalize ⟨d.negative, 10 * d.mantissa, d.scale + 1, fits, room⟩ = d.normalize := by
  have stripped : strip (10 * d.mantissa) (d.scale + 1) = strip d.mantissa d.scale := by
    rw [strip, if_pos (Nat.mul_mod_right 10 d.mantissa), Nat.mul_div_cancel_left _ (by decide)]
  have zero : isZero ⟨d.negative, 10 * d.mantissa, d.scale + 1, fits, room⟩ = d.isZero := by
    rw [Bool.eq_iff_iff, isZero, isZero, beq_iff_eq, beq_iff_eq]
    exact Nat.mul_eq_zero.trans (or_iff_right (by decide))
  exact mk_eq (by rw [zero]; rfl) (by rw [stripped]; rfl) (by rw [stripped]; rfl)

theorem readFraction?_zeros (d : Decimal) (zeros : Nat) :
    ∃ r, d.readFraction? (List.replicate zeros '0') = some r ∧ r.normalize = d.normalize := by
  induction zeros generalizing d with
  | zero => exact ⟨d, rfl, rfl⟩
  | succ zeros ih =>
    rw [List.replicate_succ]
    -- A zero with a place goes in the normal form, one without a place ends the reading.
    by_cases place : d.scale < 28 ∧ 10 * d.mantissa + ('0'.toNat - 48) < 2 ^ 96
    · obtain ⟨room, fits⟩ := place
      rw [readFraction?_cons _ room fits]
      obtain ⟨r, read, same⟩ := ih ⟨d.negative, _, d.scale + 1, fits, room⟩
      exact ⟨r, read, same.trans (d.normalize_push_zero room)⟩
    · have full : d.nextPlace? '0' = none := by
        unfold nextPlace? push?
        split
        · rename_i room
          exact dif_neg fun fits => place ⟨room, fits⟩
        · rfl
      have kept : d.cutAt? '0' = some d := rfl
      exact ⟨d, by rw [readFraction?, full]; exact kept, rfl⟩

theorem exists_readRounded? {d : Decimal} (found : ofWrittenExact? w = some d) :
    ∃ r, readRounded? w = some r ∧ r.normalize = d.normalize := by
  obtain ⟨positive, size, places⟩ := ofWrittenExact?_eq_some_iff.1 found
  obtain ⟨zeros, padded⟩ := Digits.exists_trailing_zeros w.fraction
  rw [value, Nat.ofDigitChars_append] at size
  have small := d.mantissa_lt
  have short := d.scale_le
  rw [size] at small
  rw [places, ← Nat.zero_add (List.length _)] at short
  have whole_small := Nat.lt_of_le_of_lt (Digits.le_ofDigitChars _ _) small
  have whole : readRounded? w = readFraction? ⟨false, Nat.ofDigitChars 10 w.whole 0, 0, whole_small,
      Nat.zero_le 28⟩ w.fraction := by
    rw [readRounded?, foldlM_push? rfl w.whole whole_small]
    rfl
  -- What stands before the padding are the digits of `d`, and all of them find their places.
  have read : readRounded? w = readFraction? d (List.replicate zeros '0') := by
    rw [whole, padded, readFraction?_append _ short small]
    refine congrArg (readFraction? · _) (mk_eq positive.symm size.symm ?_)
    rw [places, Nat.zero_add]
  rw [read]
  exact readFraction?_zeros d zeros

theorem negative_of_chars {d : Decimal} (lexical : w.Lexical) (shown : d.chars = w.chars) :
    d.negative = false := by
  rw [Bool.eq_false_iff]
  intro negative
  obtain ⟨c, cs, whole⟩ := List.exists_cons_of_ne_nil lexical.whole_ne
  have digit := lexical.whole c (by rw [whole]; exact List.mem_cons_self)
  have first : w.chars.head? = some c := by
    unfold Digits.Written.chars
    split <;> rw [whole] <;> rfl
  rw [← shown, chars, negative] at first
  rw [← Option.some.inj first] at digit
  exact absurd digit (by decide)

/-- Reading and comparing gives the exact number, and refuses every number that has none. -/
theorem readExact?_eq (lexical : w.Lexical) : readExact? w = ofWrittenExact? w := by
  refine Option.ext fun d => ⟨fun read => ?_, fun found => ?_⟩
  · obtain ⟨r, _, shown⟩ := Option.bind_eq_some_iff.1 read
    split at shown
    · rename_i same
      rw [← Option.some.inj shown]
      have positive := negative_of_chars (lexical_unpadded lexical) same
      rw [← chars_written positive] at same
      have written := (lexical_written _).chars_injective (lexical_unpadded lexical) same
      refine ofWrittenExact?_eq_some_iff.2 ⟨positive, ?_, ?_⟩
      · rw [← value_written, written, value_unpadded]
      · rw [← length_written, written]
        rfl
    · simp only [reduceCtorEq] at shown
  · obtain ⟨r, rounded, same⟩ := exists_readRounded? found
    have plain := plain_of_ofWrittenExact? lexical found
    have shown : d.chars = (unpadded w).chars := by
      rw [← chars_written plain.positive, written_eq_unpadded lexical found]
    rw [normalize_eq_self plain] at same
    rw [readExact?, rounded, Option.bind_eq_bind, Option.bind_some, same, if_pos shown]

end Decimal
end PolicyValues
