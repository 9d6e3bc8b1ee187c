import PolicyValues.Proofs.Double.RoundTrip
import PolicyValues.Proofs.Value.JsonRoundTrip

/-!
Whole numbers in JSON as strings. Those that 63 bits and a sign hold keep their digits. The others
travel as doubles, so what is shown is the nearest double, and never as a whole number.
-/
namespace PolicyValues

theorem toString_eq_ofInt (n : ℤ) : toString n = String.ofList (Digits.ofInt n) := by
  cases n with
  | ofNat n => exact Nat.repr_eq_ofList_toDigits
  | negSucc n =>
    change "-" ++ Nat.repr (n + 1) = String.ofList (['-'] ++ Digits.ofNat (n + 1))
    rw [Nat.repr_eq_ofList_toDigits, String.ofList_append]
    rfl

namespace Double

theorem ofInt_isNearest {n : ℤ} (small : (n.natAbs : ℚ) < limit) : (ofInt n).IsNearest n := by
  have rounded := ofRatio_rounded (decide (n < 0)) n.natAbs one_pos
  rw [Nat.cast_one, div_one] at rounded
  have signed : (if decide (n < 0) then -1 else 1) * (n.natAbs : ℚ) = n := by
    rcases lt_or_ge n 0 with negative | positive
    · rw [decide_eq_true negative, if_pos rfl, Nat.cast_natAbs, abs_of_neg negative]
      push_cast
      ring
    · rw [decide_eq_false (not_lt_of_ge positive), if_neg Bool.false_ne_true, Nat.cast_natAbs,
        abs_of_nonneg positive, one_mul]
  rw [← signed]
  exact rounded.isNearest (Nat.cast_nonneg _) small

theorem natCast_lt_limit {n : ℕ} (small : n < 2 ^ 64) : (n : ℚ) < limit := by
  have bound : 2 ^ 64 * 10 ^ 0 + 2 ^ 970 < 2 ^ 1024 := by decide +kernel
  have cast : (n : ℚ) < (2 ^ 64 : ℕ) := Nat.cast_lt.2 small
  have below := mul_pow_lt_sub bound
  rw [Nat.cast_zero, zpow_zero, mul_one] at below
  exact cast.trans below

theorem mark_mem_finiteChars (x : Double) : '.' ∈ x.finiteChars ∨ 'e' ∈ x.finiteChars := by
  have kept {c : Char} {cs : List Char} (mem : c ∈ cs) : c ∈ x.withSign cs := by
    unfold withSign
    split
    · exact List.mem_cons_of_mem _ mem
    · exact mem
  unfold finiteChars
  simp only
  split
  · exact .inl (kept (List.mem_append_right _ List.mem_cons_self))
  · exact .inr (kept (List.mem_append_right _ List.mem_cons_self))

theorem mark_not_mem_ofInt (n : ℤ) : '.' ∉ Digits.ofInt n ∧ 'e' ∉ Digits.ofInt n := by
  have digits (k : ℕ) (c : Char) (mark : c.isDigit = false) : c ∉ Digits.ofNat k := by
    intro mem
    rw [Digits.isDigit_of_mem_ofNat c mem] at mark
    exact Bool.noConfusion mark
  cases n with
  | ofNat n => exact ⟨digits n _ rfl, digits n _ rfl⟩
  | negSucc n =>
    exact ⟨List.not_mem_cons_of_ne_of_not_mem (by decide) (digits _ _ rfl),
      List.not_mem_cons_of_ne_of_not_mem (by decide) (digits _ _ rfl)⟩

theorem text_ne_toString {x : Double} (finite : x.isFinite = true) (n : ℤ) : x.text ≠ toString n := by
  rw [text, isNaN_of_finite finite, isInfinite_of_finite finite, toString_eq_ofInt]
  intro same
  have marks := x.mark_mem_finiteChars
  rw [String.ofList_injective same] at marks
  exact marks.elim (mark_not_mem_ofInt n).1 (mark_not_mem_ofInt n).2

end Double

namespace Value

variable {r : Registry} {identifier : String}

theorem valueOfJson_source {j : Json} {s : Source} {text : String} (source : Source.ofJson j = .ok s)
    (single : Registry.isTextual s = false) (uncarried : DataType.string.carried? s.flatten = none)
    (has : s.text? = some text) (registered : r.get? identifier = some .string) :
    r.valueOfJson identifier j = .ok (.string text) := by
  rw [Registry.valueOfJson, source]
  simp only
  rw [Registry.convert_of_get? registered, r.prepare_of_not_textual _ single,
    DataType.convert_of_text? uncarried has]
  rfl

/-- A whole number becomes the string of its digits if it has 63 bits and a sign, and only then. A
larger one of 64 bits becomes the text of the nearest double, which reads back as that double. -/
theorem whole_numbers_as_strings (registered : r.get? identifier = some .string) {n : ℤ}
    (low : -2 ^ 63 ≤ n) (high : n ≤ 2 ^ 64 - 1) :
    ∃ text, r.valueOfJson identifier (.integer n) = .ok (.string text) ∧
      (text = toString n ↔ n < 2 ^ 63) ∧
      (2 ^ 63 ≤ n → ∃ x : Double, x.IsNearest n ∧ text = x.text ∧ Double.parse text = .ok x) := by
  by_cases small : n < 2 ^ 63
  · have source : Source.ofJson (.integer n) = .ok (.integer (Int64.ofInt n)) := by
      rw [Source.ofJson, if_pos ⟨low, small⟩]
    have shown : (Source.integer (Int64.ofInt n)).text? = some (toString n) := by
      rw [toString_eq_ofInt, Source.text?, Value.text, Int64.toInt_ofInt_of_le low small]
    exact ⟨_, valueOfJson_source source rfl rfl shown registered, iff_of_true rfl small,
      fun large => absurd small (not_lt_of_ge large)⟩
  · have source : Source.ofJson (.integer n) = .ok (.double (.ofInt n)) := by
      rw [Source.ofJson, if_neg fun range => small range.2]
    have nearest : (Double.ofInt n).IsNearest n :=
      Double.ofInt_isNearest (Double.natCast_lt_limit (by omega))
    have other := Double.text_ne_toString nearest.finite n
    refine ⟨_, valueOfJson_source source rfl rfl rfl registered, iff_of_false other small, ?_⟩
    exact fun _ => ⟨_, nearest, rfl, Double.parse_text (Double.isNaN_of_finite nearest.finite)⟩

theorem largest_whole_number_as_string :
    Registry.default.get? DataType.string.identifier = some .string ∧
      (-2 ^ 63 : ℤ) ≤ 2 ^ 64 - 1 ∧ (2 ^ 64 - 1 : ℤ) ≤ 2 ^ 64 - 1 ∧
      ∃ text, Registry.default.valueOfJson DataType.string.identifier (.integer (2 ^ 64 - 1)) =
          .ok (.string text) ∧ text ≠ "18446744073709551615" ∧
        ∃ x : Double, x.IsNearest (2 ^ 64 - 1) ∧ text = x.text ∧ Double.parse text = .ok x := by
  have registered := Registry.get?_default_identifier .string
  obtain ⟨text, made, kept, nearest⟩ :=
    whole_numbers_as_strings registered (by decide : (-2 ^ 63 : ℤ) ≤ 2 ^ 64 - 1) (le_refl _)
  refine ⟨registered, by decide, le_refl _, text, made, ?_, ?_⟩
  · exact mt kept.1 (by decide)
  · exact_mod_cast nearest (by decide)

theorem large_whole_number_altered : ¬∀ n : ℤ, -2 ^ 63 ≤ n → n ≤ 2 ^ 64 - 1 →
    Registry.default.valueOfJson DataType.string.identifier (.integer n) =
      .ok (.string (toString n)) := by
  intro unaltered
  have digits := unaltered (2 ^ 63) (by decide) (by decide)
  have made : Registry.default.valueOfJson DataType.string.identifier (.integer (2 ^ 63)) =
      .ok (.string "9.223372036854776e18") := by decide +kernel
  rw [made] at digits
  exact absurd digits (by decide +kernel)

end Value

end PolicyValues
