import PolicyValues.Proofs.Decimal.Written
import PolicyValues.Proofs.Double.Rounding
import PolicyValues.Proofs.Double.Written

/-!
Written numbers are read as the nearest doubles. From the midpoint behind the largest finite number on
that is an infinity, so an infinity need not have been named; NaN is only ever read from its name.
-/
namespace PolicyValues
open Text

namespace Double

def Scientific.size (w : Scientific) : ℚ := Digits.value w.digits * 10 ^ w.exponent

theorem two_pow_le_ten_pow {m n : ℕ} (h : 2 ^ m ≤ 10 ^ n) : (2 : ℚ) ^ m ≤ 10 ^ n := by
  have cast := (Nat.cast_le (α := ℚ)).2 h
  rwa [Nat.cast_pow, Nat.cast_pow] at cast

theorem limit_le : limit ≤ 10 ^ (310 : ℤ) := by
  have large := two_pow_le_ten_pow (m := 1024) (n := 310) (by decide +kernel)
  have half : (0 : ℚ) ≤ 2 ^ 970 := by positivity
  rw [← zpow_natCast] at large
  exact (sub_le_self _ half).trans large

theorem nearest_zero_of_small {v : ℚ} (small : v < 10 ^ (-330 : ℤ)) : Nearest v 0 := by
  have far : (10 : ℚ) ^ (-330 : ℤ) ≤ middle 0 := by
    have least : exponentAt 0 = -1074 := by decide
    have power := two_pow_le_ten_pow (m := 1075) (n := 330) (by decide +kernel)
    rw [middle_eq, sizeAt_zero, zero_add, unitAt, least, zpow_neg, zpow_neg, div_eq_mul_inv,
      ← mul_inv]
    refine inv_anti₀ (by positivity) ?_
    rw [zpow_ofNat, zpow_ofNat, ← pow_succ]
    exact power
  exact nearest_zero_of_lt (small.trans_le far)

namespace Scientific

variable {w : Scientific}

theorem size_bounds (digits : ∀ c ∈ w.digits, c.isDigit = true) (nonzero : Digits.value w.digits ≠ 0) :
    (10 : ℚ) ^ (((w.digits.dropWhile (· == '0')).length : ℤ) + w.exponent - 1) ≤ w.size ∧
      w.size < 10 ^ (((w.digits.dropWhile (· == '0')).length : ℤ) + w.exponent) := by
  have kept : ∀ c ∈ w.digits.dropWhile (· == '0'), c.isDigit = true := fun c mem =>
    digits c (List.dropWhile_sublist _ |>.subset mem)
  have leading : (w.digits.dropWhile (· == '0')).head? ≠ some '0' := by
    intro zero
    have stops := stops_dropWhile (· == '0') w.digits
    rw [Stops, zero] at stops
    exact absurd stops (by decide)
  rw [size, ← Digits.value_dropWhile] at *
  generalize w.digits.dropWhile (· == '0') = ds at *
  have some_digit : ds ≠ [] := by
    rintro rfl
    exact nonzero rfl
  have low : ((10 ^ (ds.length - 1) : ℕ) : ℚ) ≤ Digits.value ds := by
    exact_mod_cast Digits.pow_le_value kept leading some_digit
  have high : (Digits.value ds : ℚ) < (10 ^ ds.length : ℕ) := by
    exact_mod_cast Digits.value_lt kept
  have scale : (0 : ℚ) < 10 ^ w.exponent := zpow_pos (by norm_num) _
  have length := List.length_pos_iff.2 some_digit
  constructor
  · calc (10 : ℚ) ^ ((ds.length : ℤ) + w.exponent - 1)
        = (10 ^ (ds.length - 1) : ℕ) * 10 ^ w.exponent := by
          rw [Nat.cast_pow, ← zpow_natCast, Nat.cast_ofNat, ← zpow_add₀ (by norm_num)]
          congr 1
          omega
      _ ≤ Digits.value ds * 10 ^ w.exponent := by gcongr
  · calc Digits.value ds * (10 : ℚ) ^ w.exponent
        < (10 ^ ds.length : ℕ) * 10 ^ w.exponent := by gcongr
      _ = 10 ^ ((ds.length : ℤ) + w.exponent) := by
          rw [Nat.cast_pow, ← zpow_natCast, Nat.cast_ofNat, ← zpow_add₀ (by norm_num)]

theorem ofRatio_rounded (w : Scientific) : Rounded w.negative w.size
    (ofRatio w.negative (Digits.value w.digits * 10 ^ w.exponent.toNat)
      (10 ^ (-w.exponent).toNat)) := by
  have rounded := Double.ofRatio_rounded w.negative
    (Digits.value w.digits * 10 ^ w.exponent.toNat) (d := 10 ^ (-w.exponent).toNat)
    (Nat.pow_pos (by decide))
  have scale := tenTo_eq w.exponent
  simp only [tenTo] at scale
  rw [Nat.cast_mul, mul_div_assoc, scale] at rounded
  exact rounded

/-- What the place of the first digit tells is what rounding gives. -/
theorem toDouble_eq_ofRatio (digits : ∀ c ∈ w.digits, c.isDigit = true) :
    w.toDouble = ofRatio w.negative (Digits.value w.digits * 10 ^ w.exponent.toNat)
      (10 ^ (-w.exponent).toNat) := by
  have finite : 0 < infinityBits := by decide
  simp only [toDouble, Digits.value_dropWhile]
  by_cases nonzero : Digits.value w.digits = 0
  · have zero : w.size = 0 := by rw [size, nonzero, Nat.cast_zero, zero_mul]
    rw [if_pos (.inl nonzero), w.ofRatio_rounded.eq_of_nearest (zero ▸ nearest_zero) finite]
    rfl
  · obtain ⟨low, high⟩ := size_bounds digits nonzero
    split
    · rename_i tiny
      have tiny := tiny.resolve_left nonzero
      have small : w.size < 10 ^ (-330 : ℤ) :=
        high.trans_le (zpow_le_zpow_right₀ (by norm_num) tiny.le)
      rw [w.ofRatio_rounded.eq_of_nearest (nearest_zero_of_small small) finite]
      rfl
    · split
      · rename_i huge
        have large : limit ≤ w.size :=
          (limit_le.trans (zpow_le_zpow_right₀ (by norm_num) (Int.le_sub_one_of_lt huge))).trans low
        exact (w.ofRatio_rounded.eq_infinity large).symm
      · rfl

theorem rounded (digits : ∀ c ∈ w.digits, c.isDigit = true) :
    Rounded w.negative w.size w.toDouble := by
  rw [toDouble_eq_ofRatio digits]
  exact w.ofRatio_rounded

end Scientific

theorem rounded_of_written (w : WrittenDouble) :
    Rounded w.negative w.size w.scientific.toDouble :=
  Scientific.rounded (w := w.scientific) w.all_digits

theorem isInfinite_infinity (negative : Bool) : (infinity negative).isInfinite = true := by
  rw [isInfinite, infinity, sizeBits_ofSizeBits negative infinityBits_lt]
  exact beq_self_eq_true _

theorem infinity_injective {a b : Bool} (h : infinity a = infinity b) : a = b := by
  have sign := congrArg Double.negative h
  rwa [infinity, infinity, negative_ofSizeBits a infinityBits_lt,
    negative_ofSizeBits b infinityBits_lt] at sign

theorem not_isNaN_of_isInfinite {x : Double} (h : x.isInfinite = true) : x.isNaN = false := by
  rw [isNaN, beq_iff_eq.1 h]
  exact decide_eq_false (Nat.lt_irrefl _)

def infinityNames (negative : Bool) : List String := if negative then ["-INF"] else ["INF", "+INF"]

theorem special?_eq_some_iff {text : String} {x : Double} : special? text = some x ↔
    (∃ negative, text ∈ infinityNames negative ∧ x = infinity negative) ∨
      (text = "NaN" ∧ x = nan) := by
  simp only [Bool.exists_bool, infinityNames, if_true, Bool.false_eq_true, if_false, List.mem_cons,
    List.not_mem_nil, or_false]
  unfold special?
  split
  · rename_i named
    constructor
    · exact fun same => .inl (.inl ⟨named, (Option.some.inj same).symm⟩)
    · rintro ((⟨-, rfl⟩ | ⟨rfl, -⟩) | ⟨rfl, -⟩)
      · rfl
      · exact absurd named (by decide)
      · exact absurd named (by decide)
  · rename_i other
    split
    · rename_i named
      constructor
      · exact fun same => .inl (.inr ⟨named, (Option.some.inj same).symm⟩)
      · rintro ((⟨named', -⟩ | ⟨-, rfl⟩) | ⟨rfl, -⟩)
        · exact absurd named' other
        · rfl
        · exact absurd named (by decide)
    · rename_i other'
      split
      · rename_i named
        constructor
        · exact fun same => .inr ⟨named, (Option.some.inj same).symm⟩
        · rintro ((⟨named', -⟩ | ⟨named', -⟩) | ⟨-, rfl⟩)
          · exact absurd named' other
          · exact absurd named' other'
          · rfl
      · rename_i nameless
        simp only [reduceCtorEq, other, other', nameless, false_and, or_self]

theorem parse_eq_infinity_iff {text : String} {negative : Bool} :
    parse text = .ok (infinity negative) ↔ text ∈ infinityNames negative ∨
      ∃ w : WrittenDouble, w.chars = text.toList ∧ w.negative = negative ∧ limit ≤ w.size := by
  rw [parse_eq_ok_iff, special?_eq_some_iff]
  constructor
  · rintro ((⟨sign, named, same⟩ | ⟨-, same⟩) | ⟨w, written, same⟩)
    · rw [infinity_injective same]
      exact .inl named
    · have infinite := isInfinite_infinity negative
      rw [same] at infinite
      exact absurd infinite (by decide +kernel)
    · have rounded := rounded_of_written w
      rw [same] at rounded
      have large : limit ≤ w.size := by
        by_contra! small
        have finite := isInfinite_of_finite (rounded.isNearest w.size_nonneg small).finite
        rw [isInfinite_infinity] at finite
        exact Bool.noConfusion finite
      exact .inr ⟨w, written, infinity_injective (rounded.eq_infinity large).symm, large⟩
  · rintro (named | ⟨w, written, rfl, large⟩)
    · exact .inl (.inl ⟨negative, named, rfl⟩)
    · exact .inr ⟨w, written, (rounded_of_written w).eq_infinity large⟩

theorem exists_parse_isNaN_iff {text : String} :
    (∃ x, parse text = .ok x ∧ x.isNaN = true) ↔ text = "NaN" := by
  simp only [parse_eq_ok_iff, special?_eq_some_iff]
  constructor
  · rintro ⟨x, (⟨sign, -, rfl⟩ | ⟨named, -⟩) | ⟨w, -, rfl⟩, unreal⟩
    · rw [not_isNaN_of_isInfinite (isInfinite_infinity sign)] at unreal
      exact Bool.noConfusion unreal
    · exact named
    · rw [(rounded_of_written w).isNaN_eq_false] at unreal
      exact Bool.noConfusion unreal
  · rintro rfl
    exact ⟨nan, .inl (.inr ⟨rfl, rfl⟩), by decide +kernel⟩

theorem exists_mem_infinityNames_iff {text : String} :
    (∃ negative, text ∈ infinityNames negative) ↔ text = "INF" ∨ text = "+INF" ∨ text = "-INF" := by
  simp only [Bool.exists_bool, infinityNames, if_true, Bool.false_eq_true, if_false, List.mem_cons,
    List.not_mem_nil, or_false, or_assoc]

theorem named_iff_below_limit {text : String} :
    (∀ x, parse text = .ok x → x.isInfinite = true →
      text = "INF" ∨ text = "+INF" ∨ text = "-INF") ↔
    ∀ w : WrittenDouble, w.chars = text.toList → w.size < limit := by
  constructor
  · intro named w written
    by_contra! large
    have read := parse_eq_infinity_iff.2 (.inr ⟨w, written, rfl, large⟩)
    have foreign := not_mem_of_written written
    rcases named _ read (isInfinite_infinity _) with rfl | rfl | rfl
    · exact foreign (by decide)
    · exact foreign (by decide)
    · exact foreign (by decide)
  · intro small x read infinite
    rw [eq_infinity infinite] at read
    rcases parse_eq_infinity_iff.1 read with named | ⟨w, written, -, large⟩
    · exact exists_mem_infinityNames_iff.1 ⟨_, named⟩
    · exact absurd (small w written) (not_lt_of_ge large)

/-- An infinity has been named unless the text writes a number from the midpoint behind the largest
finite one on, which is read as an infinity too; NaN has always been named. All other written numbers
are read as the nearest double. -/
theorem infinite_iff_named_or_past_limit (text : String) :
    ((∀ x, parse text = .ok x → x.isInfinite = true →
        text = "INF" ∨ text = "+INF" ∨ text = "-INF") ↔
      ∀ w : WrittenDouble, w.chars = text.toList → w.size < limit) ∧
    ((∃ x, parse text = .ok x ∧ x.isNaN = true) ↔ text = "NaN") ∧
    (∀ negative, parse text = .ok (infinity negative) ↔ text ∈ infinityNames negative ∨
      ∃ w : WrittenDouble, w.chars = text.toList ∧ w.negative = negative ∧ limit ≤ w.size) ∧
    ∀ w : WrittenDouble, w.chars = text.toList → w.size < limit →
      ∃ x, parse text = .ok x ∧ x.IsNearest w.toRat := by
  refine ⟨named_iff_below_limit, exists_parse_isNaN_iff, fun _ => parse_eq_infinity_iff, ?_⟩
  intro w written small
  exact ⟨_, parse_of_written written, (rounded_of_written w).isNearest w.size_nonneg small⟩

theorem mul_pow_lt_sub {n k low high : ℕ} (h : n * 10 ^ k + 2 ^ low < 2 ^ high) :
    (n * 10 ^ (k : ℤ) : ℚ) < 2 ^ high - 2 ^ low := by
  have cast := (Nat.cast_lt (α := ℚ)).2 h
  rw [Nat.cast_add, Nat.cast_mul, Nat.cast_pow, Nat.cast_pow, Nat.cast_pow] at cast
  rw [zpow_natCast]
  exact lt_sub_iff_add_lt.2 cast

theorem largest_number_read :
    ∃ w : WrittenDouble, w.chars = "-1.7976931348623158E+308".toList ∧ w.size < limit ∧
      ∃ x, parse "-1.7976931348623158E+308" = .ok x ∧ x.IsNearest w.toRat := by
  let power : WrittenPower :=
    ⟨'E', ⟨.plus, "308".toList, by decide, List.all_eq_true.1 (by decide)⟩, by decide⟩
  let w : WrittenDouble := ⟨.minus, "1".toList, some "7976931348623158".toList, some power,
    by decide, List.all_eq_true.1 (by decide)⟩
  have written : w.chars = "-1.7976931348623158E+308".toList := by decide
  have digits : Digits.value w.digits = 17976931348623158 := by decide +kernel
  have place : w.place = (292 : ℕ) := by decide +kernel
  have small : w.size < limit := by
    rw [WrittenDouble.size, digits, place, limit]
    exact mul_pow_lt_sub (by decide +kernel)
  exact ⟨w, written, small, (infinite_iff_named_or_past_limit _).2.2.2 w written small⟩

theorem unnamed_infinity : ¬∀ (text : String) (x : Double), parse text = .ok x →
    (x.isInfinite = true → text = "INF" ∨ text = "+INF" ∨ text = "-INF") ∧
      (x.isNaN = true → text = "NaN") := by
  intro named
  have read : parse "1e999" = .ok (infinity false) := by decide +kernel
  have name := (named _ _ read).1 (isInfinite_infinity false)
  revert name
  decide

end Double

end PolicyValues
