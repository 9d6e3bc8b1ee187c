import Mathlib.Algebra.Order.Field.Power
import Mathlib.Tactic.Positivity
import PolicyValues.Proofs.Value.Integers

/-!
Numbers as texts write them: digits with or without a point, at least one of them, a sign before them
and a power of ten behind them or not. The reader of doubles takes exactly these, besides the names of
the infinities and of NaN.
-/
namespace PolicyValues
open Text

structure WrittenPower where
  mark : Char
  exponent : WrittenInteger
  is_mark : mark = 'e' ∨ mark = 'E'

structure WrittenDouble where
  sign : Sign
  whole : List Char
  fraction : Option (List Char)
  power : Option WrittenPower
  some_digit : whole ++ fraction.getD [] ≠ []
  all_digits : ∀ c ∈ whole ++ fraction.getD [], c.isDigit = true

namespace WrittenDouble

def pointChars : Option (List Char) → List Char
  | none => []
  | some fraction => '.' :: fraction

def powerChars : Option WrittenPower → List Char
  | none => []
  | some p => p.mark :: p.exponent.chars

def powerValue : Option WrittenPower → ℤ
  | none => 0
  | some p => p.exponent.value

def chars (w : WrittenDouble) : List Char :=
  w.sign.chars ++ (w.whole ++ (pointChars w.fraction ++ powerChars w.power))

def digits (w : WrittenDouble) : List Char := w.whole ++ w.fraction.getD []

def negative (w : WrittenDouble) : Bool := decide (w.sign = .minus)

def place (w : WrittenDouble) : ℤ := powerValue w.power - (w.fraction.getD []).length

def size (w : WrittenDouble) : ℚ := Digits.value w.digits * 10 ^ w.place

def toRat (w : WrittenDouble) : ℚ := (if w.negative then -1 else 1) * w.size

theorem size_nonneg (w : WrittenDouble) : 0 ≤ w.size := by
  unfold size
  positivity

def scientific (w : WrittenDouble) : Double.Scientific := ⟨w.negative, w.digits, w.place⟩

end WrittenDouble

namespace Double

open WrittenDouble

theorem isNumberChar_of_isDigit {c : Char} (h : c.isDigit = true) : isNumberChar c = true := by
  simp only [isNumberChar, h, Bool.true_or]

theorem stops_powerChars (power : Option WrittenPower) :
    Stops Char.isDigit (powerChars power) ∧ (powerChars power).head? ≠ some '.' := by
  cases power with
  | none => exact ⟨stops_nil _, nofun⟩
  | some p =>
    rcases p.is_mark with mark | mark
    · exact ⟨stops_cons.2 (by rw [mark]; rfl), by simp [powerChars, mark]⟩
    · exact ⟨stops_cons.2 (by rw [mark]; rfl), by simp [powerChars, mark]⟩

/-! ## The grammar -/

theorem readExponent?_powerChars (power : Option WrittenPower) :
    readExponent? (powerChars power) = some (powerValue power) := by
  cases power with
  | none => rfl
  | some p =>
    have span := Digits.span_append_of_stops p.exponent.all_digits (stops_nil _)
    obtain ⟨d, more, cons⟩ := List.exists_cons_of_ne_nil p.exponent.some_digit
    rw [List.append_nil, cons] at span
    simp only [powerChars, readExponent?, if_pos p.is_mark, p.exponent.readSign_chars, cons, span,
      decide_eq_true_eq, powerValue, WrittenInteger.value]

theorem exists_power_of_readExponent? {cs : List Char} {e : ℤ} (read : readExponent? cs = some e) :
    ∃ power, powerChars power = cs := by
  cases cs with
  | nil => exact ⟨none, rfl⟩
  | cons c cs =>
    simp only [readExponent?] at read
    split at read
    · rename_i mark
      split at read
      · simp only [reduceCtorEq] at read
      · rename_i ds _ some_digit span
        obtain ⟨split, digits, -⟩ := Digits.span_eq_iff.1 span
        have mem : cs ∈ WrittenInteger.grammar := by
          rw [WrittenInteger.mem_grammar_iff, split, List.append_nil]
          exact ⟨some_digit, List.all_eq_true.2 digits⟩
        obtain ⟨exponent, rfl⟩ := mem
        exact ⟨some ⟨c, exponent, mark⟩, rfl⟩
      · simp only [reduceCtorEq] at read
    · simp only [reduceCtorEq] at read

theorem readScientific?_unsigned {cs rest : List Char} {negative : Bool}
    (sign : readSign cs = (negative, rest)) : readScientific? cs =
      let whole := (Digits.span rest).1
      let behind := match (Digits.span rest).2 with
        | '.' :: cs => Digits.span cs
        | cs => ([], cs)
      if whole = [] ∧ behind.1 = [] then none
      else (readExponent? behind.2).map fun e =>
        ⟨negative, whole ++ behind.1, e - behind.1.length⟩ := by
  unfold readScientific?
  exact sign ▸ rfl

theorem span_of_written {whole : List Char} {fraction : Option (List Char)}
    (digits : ∀ c ∈ whole ++ fraction.getD [], c.isDigit = true) (power : Option WrittenPower) :
    Digits.span (whole ++ (pointChars fraction ++ powerChars power)) =
        (whole, pointChars fraction ++ powerChars power) ∧
      (match pointChars fraction ++ powerChars power with
        | '.' :: cs => Digits.span cs
        | cs => ([], cs)) = (fraction.getD [], powerChars power) := by
  obtain ⟨stops, pointless⟩ := stops_powerChars power
  obtain ⟨whole_digits, fraction_digits⟩ := List.forall_mem_append.1 digits
  cases fraction with
  | none =>
    refine ⟨Digits.span_append_of_stops whole_digits stops, ?_⟩
    simp only [pointChars, List.nil_append, Option.getD_none]
    split
    · rename_i same
      rw [same] at pointless
      exact absurd rfl pointless
    · rfl
  | some fraction =>
    refine ⟨Digits.span_append_of_stops whole_digits (stops_cons.2 rfl), ?_⟩
    exact Digits.span_append_of_stops fraction_digits stops

theorem stops_sign (w : WrittenDouble) :
    Stops isSign (w.whole ++ (pointChars w.fraction ++ powerChars w.power)) := by
  cases whole : w.whole with
  | cons d more =>
    have digit := w.all_digits d (by rw [whole]; exact List.mem_cons_self)
    exact stops_cons.2 (isSign_of_isDigit digit)
  | nil =>
    cases fraction : w.fraction with
    | none =>
      have some_digit := w.some_digit
      rw [whole, fraction] at some_digit
      exact absurd rfl some_digit
    | some fraction => exact stops_cons.2 rfl

theorem readScientific?_chars (w : WrittenDouble) :
    readScientific? w.chars = some w.scientific := by
  obtain ⟨span, behind⟩ := span_of_written w.all_digits w.power
  rw [WrittenDouble.chars, readScientific?_unsigned (readSign_chars fun _ => stops_sign w)]
  simp only [span, behind, readExponent?_powerChars, Option.map_some]
  rw [if_neg]
  · rfl
  · rintro ⟨no_whole, no_fraction⟩
    exact w.some_digit (by rw [no_whole, no_fraction]; rfl)

theorem exists_written_of_readScientific? {cs : List Char} {s : Scientific}
    (read : readScientific? cs = some s) :
    ∃ w : WrittenDouble, w.chars = cs ∧ w.scientific = s := by
  suffices written : ∃ w : WrittenDouble, w.chars = cs by
    obtain ⟨w, rfl⟩ := written
    exact ⟨w, rfl, Option.some.inj ((readScientific?_chars w).symm.trans read)⟩
  obtain ⟨sign, unsigned, rfl, bare⟩ := exists_sign cs
  rw [readScientific?_unsigned (readSign_chars bare)] at read
  generalize split : Digits.span unsigned = parts at read
  obtain ⟨whole, rest⟩ := parts
  obtain ⟨rfl, whole_digits, -⟩ := Digits.span_eq_iff.1 split
  simp only at read
  split at read
  · rename_i after
    generalize split' : Digits.span after = parts at read
    obtain ⟨fraction, behind⟩ := parts
    obtain ⟨rfl, fraction_digits, -⟩ := Digits.span_eq_iff.1 split'
    simp only at read
    split at read
    · simp only [reduceCtorEq] at read
    · rename_i some_digit
      obtain ⟨e, tail, -⟩ := Option.map_eq_some_iff.1 read
      obtain ⟨power, rfl⟩ := exists_power_of_readExponent? tail
      refine ⟨⟨sign, whole, some fraction, power, ?_, ?_⟩, rfl⟩
      · rwa [ne_eq, List.append_eq_nil_iff]
      · exact List.forall_mem_append.2 ⟨whole_digits, fraction_digits⟩
  · simp only [and_true] at read
    split at read
    · simp only [reduceCtorEq] at read
    · rename_i some_digit
      obtain ⟨e, tail, -⟩ := Option.map_eq_some_iff.1 read
      obtain ⟨power, rfl⟩ := exists_power_of_readExponent? tail
      refine ⟨⟨sign, whole, none, power, ?_, ?_⟩, rfl⟩
      · rwa [Option.getD_none, List.append_nil]
      · rwa [Option.getD_none, List.append_nil]

theorem isNumberChar_of_sign (sign : Sign) : ∀ c ∈ sign.chars, isNumberChar c = true := by
  cases sign with
  | unsigned => exact fun _ => nofun
  | plus => exact List.forall_mem_singleton.2 rfl
  | minus => exact List.forall_mem_singleton.2 rfl

theorem isNumberChar_of_mem_chars (w : WrittenDouble) : ∀ c ∈ w.chars, isNumberChar c = true := by
  obtain ⟨whole, fraction⟩ := List.forall_mem_append.1 w.all_digits
  refine List.forall_mem_append.2 ⟨isNumberChar_of_sign _, List.forall_mem_append.2 ⟨?_,
    List.forall_mem_append.2 ⟨?_, ?_⟩⟩⟩
  · exact fun c mem => isNumberChar_of_isDigit (whole c mem)
  · cases some : w.fraction with
    | none => exact fun _ => nofun
    | some f =>
      rw [some] at fraction
      exact List.forall_mem_cons.2 ⟨rfl, fun c mem => isNumberChar_of_isDigit (fraction c mem)⟩
  · cases w.power with
    | none => exact fun _ => nofun
    | some p =>
      have mark : isNumberChar p.mark = true := by
        rcases p.is_mark with mark | mark
        · rw [mark]; rfl
        · rw [mark]; rfl
      refine List.forall_mem_cons.2 ⟨mark, List.forall_mem_append.2 ⟨isNumberChar_of_sign _, ?_⟩⟩
      exact fun c mem => isNumberChar_of_isDigit (p.exponent.all_digits c mem)

theorem special?_eq_none {text : String} (foreign : 'N' ∉ text.toList) : special? text = none := by
  unfold special?
  rw [if_neg, if_neg, if_neg]
  · rintro rfl
    exact foreign (by decide)
  · rintro rfl
    exact foreign (by decide)
  · rintro (rfl | rfl)
    · exact foreign (by decide)
    · exact foreign (by decide)

theorem not_mem_of_written {text : String} {w : WrittenDouble} (written : w.chars = text.toList) :
    'N' ∉ text.toList := by
  intro mem
  rw [← written] at mem
  exact absurd (isNumberChar_of_mem_chars w 'N' mem) (by decide)

theorem parse_of_written {text : String} {w : WrittenDouble} (written : w.chars = text.toList) :
    parse text = .ok w.scientific.toDouble := by
  have plain := special?_eq_none (not_mem_of_written written)
  have all := List.dropWhile_eq_nil_iff.2 (isNumberChar_of_mem_chars w)
  simp only [parse, plain, ← written, all, readScientific?_chars]

theorem parse_eq_ok_iff {text : String} {x : Double} : parse text = .ok x ↔
    special? text = some x ∨
      ∃ w : WrittenDouble, w.chars = text.toList ∧ w.scientific.toDouble = x := by
  constructor
  · intro read
    unfold parse at read
    split at read
    · rename_i special
      exact .inl (special.trans (congrArg some (Except.ok.inj read)))
    · simp only at read
      split at read
      · split at read
        · rename_i found
          obtain ⟨w, written, same⟩ := exists_written_of_readScientific? found
          exact .inr ⟨w, written, by rw [same]; exact Except.ok.inj read⟩
        · simp only [reduceCtorEq] at read
      · simp only [reduceCtorEq] at read
  · rintro (special | ⟨w, written, rfl⟩)
    · simp only [parse, special]
    · exact parse_of_written written

end Double

end PolicyValues
