import PolicyValues.Proofs.Conversion.Members
import PolicyValues.Proofs.Text.LongestFront
import PolicyValues.Proofs.Value.RoundTrip

/-!
Whole numbers as texts write them: digits, a sign before them or none. The reader takes all of these
that 64 bits can hold and finds the others out of range. Any other text it blames where the longest
front part ends that could begin one.
-/
namespace PolicyValues
open Text

inductive Sign where
  | unsigned | plus | minus
deriving DecidableEq, Repr

def Sign.chars : Sign → List Char
  | unsigned => []
  | plus => ['+']
  | minus => ['-']

structure WrittenInteger where
  sign : Sign
  digits : List Char
  some_digit : digits ≠ []
  all_digits : ∀ c ∈ digits, c.isDigit = true

namespace WrittenInteger

def chars (w : WrittenInteger) : List Char := w.sign.chars ++ w.digits

def value (w : WrittenInteger) : ℤ :=
  if w.sign = .minus then -(Digits.value w.digits : ℤ) else Digits.value w.digits

def Fits (w : WrittenInteger) : Prop := -2 ^ 63 ≤ w.value ∧ w.value ≤ 2 ^ 63 - 1

instance (w : WrittenInteger) : Decidable w.Fits := inferInstanceAs (Decidable (_ ∧ _))

def grammar : Language Char := {cs | ∃ w : WrittenInteger, w.chars = cs}

end WrittenInteger

def isSign (c : Char) : Bool := c == '+' || c == '-'

theorem isSign_of_isDigit {c : Char} (h : c.isDigit = true) : isSign c = false := by
  rw [Bool.eq_false_iff]
  intro sign
  rcases Bool.or_eq_true_iff.1 sign with plus | minus
  · rw [beq_iff_eq.1 plus] at h
    exact absurd h (by decide)
  · rw [beq_iff_eq.1 minus] at h
    exact absurd h (by decide)

theorem readSign_chars {sign : Sign} {cs : List Char} (bare : sign = .unsigned → Stops isSign cs) :
    Double.readSign (sign.chars ++ cs) = (decide (sign = .minus), cs) := by
  cases sign with
  | plus | minus => rfl
  | unsigned =>
    have bare := bare rfl
    change Double.readSign cs = (false, cs)
    unfold Double.readSign
    split
    · simp [isSign] at bare
    · simp [isSign] at bare
    · rfl

theorem exists_sign (cs : List Char) :
    ∃ (sign : Sign) (unsigned : List Char), cs = sign.chars ++ unsigned ∧
      (sign = .unsigned → Stops isSign unsigned) := by
  cases cs with
  | nil => exact ⟨.unsigned, [], rfl, fun _ => stops_nil _⟩
  | cons c cs =>
    by_cases plus : c = '+'
    · exact ⟨.plus, cs, by rw [plus]; rfl, nofun⟩
    · by_cases minus : c = '-'
      · exact ⟨.minus, cs, by rw [minus]; rfl, nofun⟩
      · refine ⟨.unsigned, c :: cs, rfl, fun _ => stops_cons.2 ?_⟩
        simp only [isSign, beq_eq_false_iff_ne.2 plus, beq_eq_false_iff_ne.2 minus, Bool.or_self]

theorem exists_sign_and_digits (cs : List Char) :
    ∃ (sign : Sign) (ds rest : List Char), cs = sign.chars ++ (ds ++ rest) ∧
      (∀ c ∈ ds, c.isDigit = true) ∧ Stops Char.isDigit rest ∧
      (sign = .unsigned → Stops isSign (ds ++ rest)) := by
  obtain ⟨sign, unsigned, split, bare⟩ := exists_sign cs
  have parts := Digits.span_append unsigned
  obtain ⟨-, digits, stops⟩ := Digits.span_eq_iff.1 (Prod.mk.eta (p := Digits.span unsigned)).symm
  exact ⟨sign, _, _, by rw [parts, split], digits, stops, by rwa [parts]⟩

namespace WrittenInteger

theorem readSign_chars (w : WrittenInteger) :
    Double.readSign w.chars = (decide (w.sign = .minus), w.digits) := by
  refine PolicyValues.readSign_chars fun _ => ?_
  obtain ⟨d, more, cons⟩ := List.exists_cons_of_ne_nil w.some_digit
  have digit : d.isDigit = true := w.all_digits d (by rw [cons]; exact List.mem_cons_self)
  rw [cons, stops_cons]
  exact isSign_of_isDigit digit

theorem exists_ofInt (n : ℤ) :
    ∃ w : WrittenInteger, w.chars = Digits.ofInt n ∧ w.value = n := by
  cases n with
  | ofNat n =>
    refine ⟨⟨.unsigned, Digits.ofNat n, Digits.ofNat_ne_nil n, Digits.isDigit_of_mem_ofNat⟩, rfl, ?_⟩
    rw [value, if_neg (by simp only [reduceCtorEq, not_false_eq_true]), Digits.value_ofNat]
    rfl
  | negSucc n =>
    refine ⟨⟨.minus, Digits.ofNat (n + 1), Digits.ofNat_ne_nil _, Digits.isDigit_of_mem_ofNat⟩, rfl, ?_⟩
    rw [value, if_pos rfl, Digits.value_ofNat]
    rfl

theorem mem_grammar_iff {cs : List Char} : cs ∈ grammar ↔
    (Double.readSign cs).2 ≠ [] ∧ (Double.readSign cs).2.all Char.isDigit = true := by
  constructor
  · rintro ⟨w, rfl⟩
    rw [w.readSign_chars]
    exact ⟨w.some_digit, List.all_eq_true.2 w.all_digits⟩
  · obtain ⟨sign, unsigned, rfl, bare⟩ := exists_sign cs
    rw [PolicyValues.readSign_chars bare]
    rintro ⟨some_digit, all_digits⟩
    exact ⟨⟨sign, unsigned, some_digit, List.all_eq_true.1 all_digits⟩, rfl⟩

instance (cs : List Char) : Decidable (cs ∈ grammar) := decidable_of_iff _ mem_grammar_iff.symm

theorem readInteger_eq {w : WrittenInteger} {text : String} (written : w.chars = text.toList) :
    readInteger text = if w.Fits then .ok (Int64.ofInt w.value)
      else .error (.outOfRange .integer (.integer text)) := by
  have span := Digits.span_append_of_stops w.all_digits (stops_nil _)
  have fits : w.Fits ↔ -2 ^ 63 ≤ w.value ∧ w.value < 2 ^ 63 := and_congr_right fun _ => by omega
  obtain ⟨d, more, cons⟩ := List.exists_cons_of_ne_nil w.some_digit
  rw [List.append_nil, cons] at span
  simp only [readInteger, ← written, w.readSign_chars, cons, span, decide_eq_true_eq, fits, value]

end WrittenInteger

variable {text : String} {sign : Sign} {ds rest : List Char}

theorem readInteger_of_no_integer (split : text.toList = sign.chars ++ (ds ++ rest))
    (bare : sign = .unsigned → Stops isSign (ds ++ rest)) (digits : ∀ c ∈ ds, c.isDigit = true)
    (stops : Stops Char.isDigit rest) (wrong : ds = [] ∨ rest ≠ []) :
    readInteger text =
      .error (.malformed .integer text (offsetOf text.toList rest) (.item "a digit")) := by
  have span := Digits.span_append_of_stops digits stops
  simp only [readInteger, split, readSign_chars bare, span]
  split
  · rename_i same
    obtain ⟨rfl, rfl⟩ := Prod.mk.inj same
    simp at wrong
  · rename_i same
    obtain ⟨rfl, rfl⟩ := Prod.mk.inj same
    rfl

theorem begins_sign_digits (sign : Sign) (digits : ∀ c ∈ ds, c.isDigit = true) :
    Begins WrittenInteger.grammar (sign.chars ++ ds) := by
  have more : ∀ c ∈ ds ++ ['0'], c.isDigit = true :=
    List.forall_mem_append.2 ⟨digits, List.forall_mem_singleton.2 rfl⟩
  exact ⟨['0'], ⟨sign, ds ++ ['0'], by simp, more⟩, (List.append_assoc _ _ _).symm⟩

theorem longestFront_of_stops (split : text.toList = sign.chars ++ (ds ++ rest))
    (bare : sign = .unsigned → Stops isSign (ds ++ rest)) (digits : ∀ c ∈ ds, c.isDigit = true)
    (stops : Stops Char.isDigit rest) :
    LongestFront (fun front => Begins WrittenInteger.grammar front.toList) text
      (offsetOf text.toList rest) := by
  refine .of_next (by rw [split, List.append_assoc]) (begins_sign_digits sign digits) ?_
  rintro c more rfl ⟨behind, w, same⟩
  have bare' : sign = .unsigned → Stops isSign (ds ++ c :: behind) := by
    intro unsigned
    have first := bare unsigned
    cases ds with
    | nil => exact first
    | cons d ds => exact first
  -- The reader of signs takes one sign off both spellings, so `c` is among the digits of `w`.
  have read := readSign_chars bare'
  rw [List.append_assoc, List.append_assoc, List.singleton_append] at same
  rw [← same, w.readSign_chars] at read
  have digit := w.all_digits c
  rw [(Prod.mk.inj read).2, stops_cons.1 stops] at digit
  exact absurd (digit (by simp)) (by decide)

namespace WrittenInteger

theorem read_of_fits {w : WrittenInteger} (written : w.chars = text.toList) (fits : w.Fits) :
    ∃ n : Int64, n.toInt = w.value ∧ DataType.integer.read text = .ok (.integer n) := by
  refine ⟨Int64.ofInt w.value, Int64.toInt_ofInt_of_le fits.1 ?_, ?_⟩
  · exact Int.lt_of_le_sub_one fits.2
  · rw [DataType.read, readInteger_eq written, if_pos fits]
    rfl

theorem read_of_not_fits {w : WrittenInteger} (written : w.chars = text.toList)
    (far : ¬w.Fits) :
    DataType.integer.read text = .error (.outOfRange .integer (.integer text)) := by
  rw [DataType.read, readInteger_eq written, if_neg far]
  rfl

end WrittenInteger

theorem read_of_no_integer (foreign : text.toList ∉ WrittenInteger.grammar) : ∃ offset,
    DataType.integer.read text = .error (.malformed .integer text offset (.item "a digit")) ∧
      LongestFront (fun front => Begins WrittenInteger.grammar front.toList) text offset := by
  obtain ⟨sign, ds, rest, split, digits, stops, bare⟩ := exists_sign_and_digits text.toList
  have wrong : ds = [] ∨ rest ≠ [] := by
    by_contra! right
    obtain ⟨some_digit, rfl⟩ := right
    rw [List.append_nil] at split
    exact foreign ⟨⟨sign, ds, some_digit, digits⟩, split.symm⟩
  refine ⟨_, ?_, longestFront_of_stops split bare digits stops⟩
  rw [DataType.read, readInteger_of_no_integer split bare digits stops wrong]
  rfl

theorem exists_read_integer_iff : (∃ v, DataType.integer.read text = .ok v) ↔
    ∃ w : WrittenInteger, w.chars = text.toList ∧ w.Fits := by
  constructor
  · rintro ⟨v, read⟩
    by_cases shape : text.toList ∈ WrittenInteger.grammar
    · obtain ⟨w, written⟩ := shape
      refine ⟨w, written, ?_⟩
      by_contra far
      rw [WrittenInteger.read_of_not_fits written far] at read
      simp only [reduceCtorEq] at read
    · obtain ⟨offset, refused, -⟩ := read_of_no_integer shape
      rw [refused] at read
      simp only [reduceCtorEq] at read
  · rintro ⟨w, written, fits⟩
    obtain ⟨n, -, read⟩ := WrittenInteger.read_of_fits written fits
    exact ⟨.integer n, read⟩

/-- A sign and digits are read as the number that they denote, or found out of range if 64 bits cannot
hold it. Any other text is blamed where its longest front part ends that begins such a text, which is
at its end if it is but a sign. A number is read back from its own text. -/
theorem integers_read_as_written :
    (∀ text, (∃ v, DataType.integer.read text = .ok v) ↔
      ∃ w : WrittenInteger, w.chars = text.toList ∧ w.Fits) ∧
    (∀ (text : String) (w : WrittenInteger), w.chars = text.toList →
      (w.Fits → ∃ n : Int64, n.toInt = w.value ∧ DataType.integer.read text = .ok (.integer n)) ∧
      (¬w.Fits → DataType.integer.read text = .error (.outOfRange .integer (.integer text)))) ∧
    (∀ text : String, text.toList ∉ WrittenInteger.grammar → ∃ offset,
      DataType.integer.read text = .error (.malformed .integer text offset (.item "a digit")) ∧
        LongestFront (fun front => Begins WrittenInteger.grammar front.toList) text offset ∧
        ∀ sign : Sign, text.toList = sign.chars → offset = text.utf8ByteSize) ∧
    ∀ n : Int64, ∃ shown, DataType.integer.render (.integer n) = .ok shown ∧
      DataType.integer.read shown = .ok (.integer n) := by
  refine ⟨fun text => exists_read_integer_iff, fun text w written => ?_, fun text foreign => ?_,
    fun n => ⟨_, DataType.render_of_own rfl, ?_⟩⟩
  · exact ⟨WrittenInteger.read_of_fits written, WrittenInteger.read_of_not_fits written⟩
  · obtain ⟨offset, refused, longest⟩ := read_of_no_integer foreign
    refine ⟨offset, refused, longest, fun sign lone => longest.eq_utf8ByteSize ?_⟩
    have begins : Begins WrittenInteger.grammar (sign.chars ++ []) :=
      begins_sign_digits sign fun _ => nofun
    rwa [List.append_nil, ← lone] at begins
  · rw [DataType.read, Value.text, readInteger_text]
    rfl

theorem least_integer_read_and_next_refused :
    (∃ n : Int64, n.toInt = -2 ^ 63 ∧
      DataType.integer.read "-9223372036854775808" = .ok (.integer n)) ∧
    DataType.integer.read "-09223372036854775809" =
      .error (.outOfRange .integer (.integer "-09223372036854775809")) ∧
    LongestFront (fun front => Begins WrittenInteger.grammar front.toList) "+4é2" 2 ∧
    DataType.integer.read "+" = .error (.malformed .integer "+" 1 (.item "a digit")) := by
  obtain ⟨-, written, foreign, -⟩ := integers_read_as_written
  let least : WrittenInteger :=
    ⟨.minus, "9223372036854775808".toList, by decide, List.all_eq_true.1 (by decide)⟩
  let next : WrittenInteger :=
    ⟨.minus, "09223372036854775809".toList, by decide, List.all_eq_true.1 (by decide)⟩
  have fits : least.Fits := by decide +kernel
  have far : ¬next.Fits := by decide +kernel
  refine ⟨(written _ least rfl).1 fits, (written _ next rfl).2 far, ?_, ?_⟩
  · obtain ⟨offset, refused, longest, -⟩ := foreign "+4é2" (by decide)
    have read : DataType.integer.read "+4é2" =
        .error (.malformed .integer "+4é2" 2 (.item "a digit")) := by decide +kernel
    rw [read] at refused
    obtain ⟨-, -, rfl, -⟩ := ValueError.malformed.inj (Except.error.inj refused)
    exact longest
  · obtain ⟨offset, refused, -, lone⟩ := foreign "+" (by decide)
    rwa [lone .plus rfl] at refused

end PolicyValues
