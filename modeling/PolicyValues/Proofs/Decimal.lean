import PolicyValues.Decimal
import PolicyValues.Proofs.Text.Digits

/-!
Decimals without padding are what the digits of their texts say, where these fit, and sums whose
mantissa fits at the larger scale of the two terms are exact.
-/
namespace PolicyValues
open Text

theorem Digits.value_append (as bs : List Char) :
    value (as ++ bs) = value as * 10 ^ bs.length + value bs := by
  rw [value, Nat.ofDigitChars_append, Nat.ofDigitChars_eq_ofDigitChars_zero, Nat.mul_comm]
  rfl

namespace Decimal

theorem strip_of_mod_ne {mantissa scale : Nat} (h : scale ≠ 0 → mantissa % 10 ≠ 0) :
    strip mantissa scale = (mantissa, scale) := by
  cases scale with
  | zero => rfl
  | succ scale => rw [strip, if_neg (h (Nat.succ_ne_zero scale))]

theorem mod_ne_of_strip {mantissa scale : Nat} (h : strip mantissa scale = (mantissa, scale))
    (fractional : scale ≠ 0) : mantissa % 10 ≠ 0 := by
  intro padded
  obtain ⟨less, rfl⟩ := Nat.exists_eq_succ_of_ne_zero fractional
  have stripped := congrArg Prod.snd h
  have le := strip_snd_le (mantissa / 10) less
  rw [strip, if_pos padded] at stripped
  simp only at stripped
  omega

theorem strip_mul (mantissa scale : Nat) :
    (strip mantissa scale).1 * 10 ^ (scale - (strip mantissa scale).2) = mantissa := by
  induction scale generalizing mantissa with
  | zero => simp only [strip, Nat.sub_self, Nat.pow_zero, Nat.mul_one]
  | succ scale ih =>
    rw [strip]
    split
    · rename_i padded
      have le := strip_snd_le (mantissa / 10) scale
      rw [Nat.succ_sub le, Nat.pow_succ, ← Nat.mul_assoc, ih]
      exact Nat.div_mul_cancel (Nat.dvd_of_mod_eq_zero padded)
    · simp only [Nat.sub_self, Nat.pow_zero, Nat.mul_one]

theorem Plain.eq_zero {d : Decimal} (h : d.Plain) (empty : d.isZero = true) : d = zero := by
  obtain ⟨negative, mantissa, scale, fits, le⟩ := d
  have none : mantissa = 0 := beq_iff_eq.1 empty
  have whole : scale = 0 := by
    rcases Nat.eq_zero_or_pos scale with whole | fractional
    · exact whole
    · have padded : mantissa % 10 = 0 := by rw [none]
      exact absurd padded (mod_ne_of_strip h.stripped (Nat.ne_of_gt fractional))
  have positive : negative = false := h.positive
  subst none whole positive
  rfl

def written (d : Decimal) : Digits.Written where
  whole := Digits.ofNat d.whole
  fraction := if d.scale = 0 then [] else Digits.padded d.scale (d.mantissa % 10 ^ d.scale)

theorem fractionAfter_of_stops (whole : List Char) {rest : List Char} (h : rest.head? ≠ some '.') :
    Digits.fractionAfter whole rest = (⟨whole, []⟩, rest) := by
  unfold Digits.fractionAfter
  split
  · simp only [List.head?_cons, ne_eq, not_true_eq_false] at h
  · rfl

theorem unsigned?_chars {d : Decimal} (positive : d.negative = false) {rest : List Char}
    (digit : Stops Char.isDigit rest) (point : rest.head? ≠ some '.') :
    Digits.unsigned? (d.chars ++ rest) = some (d.written, rest) := by
  by_cases whole : d.scale = 0
  · simp only [chars, positive, Bool.false_eq_true, if_false, List.nil_append, whole, if_true,
      List.append_nil, Digits.unsigned?,
      Digits.span_append_of_stops Digits.isDigit_of_mem_ofNat digit, Digits.ofNat_ne_nil,
      fractionAfter_of_stops _ point, written]
  · have point' : Stops Char.isDigit
        ('.' :: (Digits.padded d.scale (d.mantissa % 10 ^ d.scale) ++ rest)) := stops_cons.2 rfl
    simp only [chars, positive, Bool.false_eq_true, if_false, List.nil_append, whole,
      List.append_assoc, List.cons_append, Digits.unsigned?,
      Digits.span_append_of_stops Digits.isDigit_of_mem_ofNat point', Digits.ofNat_ne_nil,
      Digits.fractionAfter, Digits.span_append_of_stops Digits.isDigit_of_mem_padded digit,
      Digits.padded_ne_nil, written]

theorem length_written (d : Decimal) : d.written.fraction.length = d.scale := by
  unfold written
  split
  · rename_i whole
    rw [whole, List.length_nil]
  · rename_i fractional
    have small := Nat.mod_lt d.mantissa (show 0 < 10 ^ d.scale from Nat.pow_pos (by decide))
    exact Digits.length_padded (Nat.pos_of_ne_zero fractional) small

theorem value_written (d : Decimal) :
    Digits.value (d.written.whole ++ d.written.fraction) = d.mantissa := by
  rw [Digits.value_append, length_written]
  by_cases whole : d.scale = 0
  · simp only [written, whole, if_true, Digits.value_ofNat, Decimal.whole, Nat.pow_zero,
      Nat.div_one, Nat.mul_one]
    rfl
  · simp only [written, whole, if_false, Digits.value_ofNat, Digits.value_padded, Decimal.whole]
    rw [Nat.mul_comm]
    exact Nat.div_add_mod d.mantissa (10 ^ d.scale)

theorem dropTrailingZeros_written {d : Decimal} (h : d.Plain) :
    dropTrailingZeros d.written.fraction = d.written.fraction := by
  by_cases whole : d.scale = 0
  · simp only [written, whole, if_true]
    rfl
  · have value := Digits.value_padded d.scale (d.mantissa % 10 ^ d.scale)
    have some_digit := Digits.padded_ne_nil d.scale (d.mantissa % 10 ^ d.scale)
    simp only [written, whole, if_false]
    generalize Digits.padded d.scale (d.mantissa % 10 ^ d.scale) = ds at value some_digit
    obtain ⟨front, last, rfl⟩ : ∃ front last, ds = front ++ [last] :=
      ⟨ds.dropLast, ds.getLast some_digit, (List.dropLast_concat_getLast some_digit).symm⟩
    refine trimRight_append_of_stops front (beq_eq_false_iff_ne.2 ?_)
    rintro rfl
    -- A zero written last is the last digit of the mantissa.
    have ends : (d.mantissa % 10 ^ d.scale) % 10 = 0 := by
      rw [← value, Digits.value_append]
      simp only [List.length_singleton, Nat.pow_one]
      exact Nat.mul_mod_left _ _
    obtain ⟨scale, succ⟩ := Nat.exists_eq_succ_of_ne_zero whole
    rw [Nat.mod_mod_of_dvd _ (by rw [succ, Nat.pow_succ]; exact Nat.dvd_mul_left _ _)] at ends
    exact mod_ne_of_strip h.stripped whole ends

theorem mk_eq {d : Decimal} {negative : Bool} {mantissa scale : Nat} {fits : mantissa < 2 ^ 96}
    {le : scale ≤ 28} (sign : negative = d.negative) (size : mantissa = d.mantissa)
    (places : scale = d.scale) : (⟨negative, mantissa, scale, fits, le⟩ : Decimal) = d := by
  subst sign size places
  rfl

structure Normal (d : Decimal) : Prop where
  stripped : strip d.mantissa d.scale = (d.mantissa, d.scale)
  mantissa_ne : d.negative = true → d.mantissa ≠ 0

theorem normal_normalize (d : Decimal) : d.normalize.Normal where
  stripped := strip_strip d.mantissa d.scale
  mantissa_ne := by
    intro below zero
    simp only [normalize, isZero, Bool.and_eq_true, Bool.not_eq_true',
      beq_eq_false_iff_ne] at below zero
    have value := strip_mul d.mantissa d.scale
    rw [zero, Nat.zero_mul] at value
    exact below.2 value.symm

theorem Normal.normalize_eq {d : Decimal} (h : d.Normal) : d.normalize = d := by
  refine mk_eq ?_ (by rw [h.stripped]) (by rw [h.stripped])
  cases below : d.negative with
  | false => rfl
  | true => simp only [isZero, beq_eq_false_iff_ne.2 (h.mantissa_ne below), Bool.not_false,
      Bool.and_self]

/-- The exact number of a written form, whatever zeros pad it. -/
def ofWrittenExact? (w : Digits.Written) : Option Decimal :=
  ofWritten? false ⟨w.whole, dropTrailingZeros w.fraction⟩

theorem ofWrittenExact?_eq_some_iff {w : Digits.Written} {d : Decimal} :
    ofWrittenExact? w = some d ↔ d.negative = false ∧
      d.mantissa = Digits.value (w.whole ++ dropTrailingZeros w.fraction) ∧
        d.scale = (dropTrailingZeros w.fraction).length := by
  simp only [ofWrittenExact?, ofWritten?]
  constructor
  · intro found
    split at found
    · rw [← Option.some.inj found]
      exact ⟨rfl, rfl, rfl⟩
    · simp only [reduceCtorEq] at found
  · rintro ⟨positive, size, places⟩
    rw [dif_pos ⟨size ▸ d.mantissa_lt, places ▸ d.scale_le⟩]
    exact congrArg some (mk_eq positive.symm size.symm places.symm)

theorem ofWrittenExact?_written {d : Decimal} (h : d.Plain) :
    ofWrittenExact? d.written = some d := by
  refine ofWrittenExact?_eq_some_iff.2 ⟨h.positive, ?_, ?_⟩
  · rw [dropTrailingZeros_written h, value_written]
  · rw [dropTrailingZeros_written h, length_written]

theorem fit?_of_lt (negative : Bool) {size scale : Nat} (le : scale ≤ 28) (fits : size < 2 ^ 96) :
    fit? negative size scale scale le = some ⟨negative, size, scale, fits, le⟩ := by
  have exact_size : divHalfEven size (10 ^ (scale - scale)) = size := by
    have unscaled := divHalfEven_mul (show 0 < 1 by decide) size
    rw [Nat.mul_one] at unscaled
    rw [Nat.sub_self, Nat.pow_zero, unscaled]
  unfold fit?
  simp only [exact_size, fits, dite_true]

theorem add?_eq_fit? {a b : Decimal} (apos : a.negative = false) (whole : a.scale = 0)
    (bpos : b.negative = false) :
    a.add? b = fit? false (a.mantissa * 10 ^ b.scale + b.mantissa) b.scale b.scale b.scale_le := by
  have scale : max a.scale b.scale = b.scale := by rw [whole, Nat.zero_max]
  have sum : a.signedAt b.scale + b.signedAt b.scale =
      ((a.mantissa * 10 ^ b.scale + b.mantissa : Nat) : Int) := by
    simp only [signedAt, apos, bpos, whole, Bool.false_eq_true, if_false, Nat.sub_zero,
      Nat.sub_self, Nat.pow_zero, Nat.mul_one, Int.natCast_add]
  have nonneg : ¬ ((a.mantissa * 10 ^ b.scale + b.mantissa : Nat) : Int) < 0 := by omega
  simp only [add?, scale, sum, nonneg, decide_false, Int.natAbs_natCast]

theorem add?_of_whole {a b : Decimal} (apos : a.negative = false) (whole : a.scale = 0)
    (bpos : b.negative = false) (fits : a.mantissa * 10 ^ b.scale + b.mantissa < 2 ^ 96) :
    a.add? b = some ⟨false, a.mantissa * 10 ^ b.scale + b.mantissa, b.scale, fits, b.scale_le⟩ := by
  rw [add?_eq_fit? apos whole bpos, fit?_of_lt false b.scale_le fits]

def integral (n : Nat) (fits : n < 2 ^ 96) : Decimal := ⟨false, n, 0, fits, zero.scale_le⟩

theorem add?_integral {m n : Nat} (left : m < 2 ^ 96) (right : n < 2 ^ 96) (fits : m + n < 2 ^ 96) :
    (integral m left).add? (integral n right) = some (integral (m + n) fits) := by
  have sum : (integral m left).mantissa * 10 ^ (integral n right).scale +
      (integral n right).mantissa = m + n := by
    simp only [integral, Nat.pow_zero, Nat.mul_one]
  rw [add?_of_whole rfl rfl rfl (by rw [sum]; exact fits)]
  exact congrArg some (mk_eq rfl sum rfl)

end Decimal

end PolicyValues
