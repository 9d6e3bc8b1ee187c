import Mathlib.Data.List.TakeWhile
import PolicyValues.Text.Scan
import PolicyValues.Proofs.Text.Places

/-!
Scanners against the bytes of a text. Each one takes the longest match that begins at its offset, if
there is one, and reports the place behind it; none looks past the text or into a character.
-/
namespace PolicyValues
open Text

namespace Digits

def decimals : Language Char := {cs | ∃ w : Written, w.Lexical ∧ w.chars = cs}

theorem fractionAfter_suffix (whole rest : List Char) : (fractionAfter whole rest).2 <:+ rest := by
  unfold fractionAfter
  split
  · rename_i after
    split
    · exact List.suffix_rfl
    · exact (List.dropWhile_suffix _).trans (List.suffix_cons '.' after)
  · exact List.suffix_rfl

theorem span_append_digits {ds : List Char} (digits : ∀ c ∈ ds, c.isDigit = true)
    (rest : List Char) :
    span (ds ++ rest) = (ds ++ rest.takeWhile Char.isDigit, rest.dropWhile Char.isDigit) := by
  rw [span, List.takeWhile_append_of_pos digits, List.dropWhile_append_of_pos digits]

theorem exists_unsigned?_chars {w : Written} (lexical : w.Lexical) (rest : List Char) :
    ∃ read, unsigned? (w.chars ++ rest) = some read ∧ read.2 <:+ rest := by
  obtain ⟨whole, fraction⟩ := w
  obtain ⟨whole_ne, whole_digits, fraction_digits⟩ := lexical
  simp only at whole_ne whole_digits fraction_digits
  by_cases integral : fraction = []
  · have some_digit : whole ++ rest.takeWhile Char.isDigit ≠ [] :=
      List.append_ne_nil_of_left_ne_nil whole_ne _
    rw [Written.chars, if_pos integral, unsigned?, span_append_digits whole_digits,
      if_neg some_digit]
    exact ⟨_, rfl, (fractionAfter_suffix _ _).trans (List.dropWhile_suffix _)⟩
  · have behind : Stops Char.isDigit ('.' :: (fraction ++ rest)) := stops_cons.2 rfl
    have some_digit : fraction ++ rest.takeWhile Char.isDigit ≠ [] :=
      List.append_ne_nil_of_left_ne_nil integral _
    rw [Written.chars, if_neg integral, List.append_assoc, List.cons_append, unsigned?,
      span_append_of_stops whole_digits behind, if_neg whole_ne, fractionAfter,
      span_append_digits fraction_digits, if_neg some_digit]
    exact ⟨_, rfl, List.dropWhile_suffix _⟩

end Digits

namespace Text

theorem byteLength_le_of_suffix {as bs : List Char} (h : as <:+ bs) :
    byteLength as ≤ byteLength bs := by
  obtain ⟨front, rfl⟩ := h
  rw [byteLength_append]
  exact Nat.le_add_left _ _

theorem eq_of_append_of_byteLength {as bs as' bs' : List Char} (same : as ++ bs = as' ++ bs')
    (size : byteLength as = byteLength as') : as = as' ∧ bs = bs' := by
  have left := suffixAt?_append as bs
  rw [same, size, suffixAt?_append, Option.some.injEq] at left
  subst left
  exact ⟨List.append_cancel_right same, rfl⟩

end Text

namespace Scan

variable {text s : String} {offset width last n : ℕ} {minus : Bool} {ds : List Char}

theorem digits_eq_some_iff : digits text offset width = some n ↔
    ∃ run : Digits.Field width, StandsAt text offset (String.ofList run.chars) ∧
      run.value < 2 ^ 32 ∧ run.value = n := by
  unfold digits
  split
  · rename_i none
    subst none
    have empty (run : Digits.Field 0) : run.chars = [] := List.eq_nil_of_length_eq_zero run.length_eq
    have zero (run : Digits.Field 0) : run.value = 0 := by rw [Digits.Field.value, empty]; rfl
    simp only [empty, zero, String.ofList_nil, standsAt_empty, byteLength_toList]
    constructor
    · intro h
      split at h
      · exact ⟨.zeros 0, ‹_›, by decide, Option.some.inj h⟩
      · simp only [reduceCtorEq] at h
    · rintro ⟨-, fits, -, rfl⟩
      exact if_pos fits
  · rename_i positive
    have some_char (run : Digits.Field width) : run.chars ≠ [] := by
      rw [← List.length_pos_iff, run.length_eq]
      exact Nat.pos_of_ne_zero positive
    simp only [Option.bind_eq_bind, Option.bind_eq_some_iff, Option.pure_def, Option.some.injEq,
      Prod.exists, Digits.fixed?_eq_some_iff_small, standsAt_iff (some_char _)]
    constructor
    · rintro ⟨cs, found, _, rest, ⟨run, rfl, small, rfl⟩, rfl⟩
      exact ⟨run, ⟨rest, found⟩, small, rfl⟩
    · rintro ⟨run, ⟨rest, found⟩, small, rfl⟩
      exact ⟨_, found, _, rest, ⟨run, rfl, small, rfl⟩, rfl⟩

structure SignedAt (text : String) (offset : ℕ) (minus : Bool) (ds : List Char) (last : ℕ) :
    Prop where
  some_digit : ds ≠ []
  digits : ∀ c ∈ ds, c.isDigit = true
  stands : StandsAt text offset (String.ofList (Digits.signChars minus ++ ds))
  last_eq : last = offset + (String.ofList (Digits.signChars minus ++ ds)).utf8ByteSize
  maximal : ∀ d : Char, d.isDigit = true → ¬StandsAt text last (String.singleton d)

theorem stops_iff {rest : List Char} (found : suffixAt? text.toList last = some rest) :
    Stops Char.isDigit rest ↔
      ∀ d : Char, d.isDigit = true → ¬StandsAt text last (String.singleton d) := by
  have first (d : Char) : StandsAt text last (String.singleton d) ↔ ∃ more, rest = d :: more := by
    have stands : StandsAt text last (String.ofList [d]) ↔
        ∃ more, suffixAt? text.toList last = some ([d] ++ more) := standsAt_iff (List.cons_ne_nil d [])
    simp only [found, Option.some.injEq, List.singleton_append] at stands
    exact stands
  simp only [first, not_exists]
  cases rest with
  | nil => exact iff_of_true (stops_nil _) fun _ _ _ => nofun
  | cons c more =>
    rw [stops_cons, Bool.eq_false_iff]
    constructor
    · rintro other d digit behind same
      rw [(List.cons.inj same).1] at other
      exact other digit
    · exact fun other digit => other c digit more rfl

theorem signedInt_eq_some_iff {number : ℤ} : signedInt text offset = some (number, last) ↔
    ∃ (minus : Bool) (ds : List Char), SignedAt text offset minus ds last ∧
      Digits.value ds ≤ 2 ^ 63 - 1 ∧
      number = if minus then -(Digits.value ds : ℤ) else Digits.value ds := by
  have some_char {minus : Bool} {ds : List Char} (some_digit : ds ≠ []) :
      Digits.signChars minus ++ ds ≠ [] := List.append_ne_nil_of_right_ne_nil _ some_digit
  simp only [signedInt, Option.bind_eq_bind, Option.bind_eq_some_iff, Option.pure_def,
    Option.some.injEq, Prod.mk.injEq, Digits.signed?_eq_some_iff]
  constructor
  · rintro ⟨cs, found, run, ⟨minus, ds, rfl, some_digit, digits, stops, small, value, -⟩, rfl, rfl⟩
    obtain ⟨place, next⟩ := suffixAt?_read found
    rw [place, value]
    refine ⟨minus, ds, ⟨some_digit, digits, ?_, ?_, ?_⟩, Nat.le_sub_one_of_lt small, rfl⟩
    · exact (standsAt_iff (some_char some_digit)).2 ⟨run.rest, found⟩
    · rw [utf8ByteSize_ofList]
    · exact (stops_iff next).1 stops
  · rintro ⟨minus, ds, ⟨some_digit, digits, stands, rfl, maximal⟩, small, rfl⟩
    obtain ⟨rest, found⟩ := (standsAt_iff (some_char some_digit)).1 stands
    obtain ⟨place, next⟩ := suffixAt?_read found
    rw [utf8ByteSize_ofList] at maximal ⊢
    refine ⟨_, found, ⟨_, ds.length, rest⟩, ⟨minus, ds, rfl, some_digit, digits, ?_, ?_, rfl, rfl⟩,
      rfl, place⟩
    · exact (stops_iff next).2 maximal
    · exact Nat.lt_of_le_pred (by decide) small

/-- A text of the grammar stands at the offset, and no longer one does. -/
structure LongestAt (grammar : Language Char) (text : String) (offset : ℕ) (s : String) : Prop where
  mem : s.toList ∈ grammar
  stands : StandsAt text offset s
  longest : ∀ other : String, other.toList ∈ grammar → StandsAt text offset other →
    other.utf8ByteSize ≤ s.utf8ByteSize

theorem ne_nil_of_mem_decimals {cs : List Char} (mem : cs ∈ Digits.decimals) : cs ≠ [] := by
  obtain ⟨w, lexical, rfl⟩ := mem
  unfold Digits.Written.chars
  split
  · exact lexical.whole_ne
  · exact List.append_ne_nil_of_left_ne_nil lexical.whole_ne _

theorem exists_suffixAt?_of_decimal (mem : s.toList ∈ Digits.decimals)
    (stands : StandsAt text offset s) :
    ∃ rest, suffixAt? text.toList offset = some (s.toList ++ rest) := by
  rw [← String.ofList_toList (s := s)] at stands
  exact (standsAt_iff (ne_nil_of_mem_decimals mem)).1 stands

theorem longestAt_of_unsignedDecimal (read : unsignedDecimal text offset = some (s, last)) :
    LongestAt Digits.decimals text offset s ∧ last = offset + s.utf8ByteSize := by
  simp only [unsignedDecimal, Option.bind_eq_bind, Option.bind_eq_some_iff, Option.pure_def,
    Option.some.injEq, Prod.mk.injEq, Prod.exists] at read
  obtain ⟨cs, found, w, rest, taken, rfl, rfl⟩ := read
  obtain ⟨lexical, rfl⟩ := Digits.lexical_of_unsigned? taken
  have mem : w.chars ∈ Digits.decimals := ⟨w, lexical, rfl⟩
  refine ⟨⟨?_, ?_, ?_⟩, ?_⟩
  · rwa [String.toList_ofList]
  · exact (standsAt_iff (ne_nil_of_mem_decimals mem)).2 ⟨rest, found⟩
  · intro other mem' stands
    obtain ⟨rest', found'⟩ := exists_suffixAt?_of_decimal mem' stands
    obtain ⟨w', lexical', same⟩ := mem'
    have split : w.chars ++ rest = w'.chars ++ rest' := by
      rw [same]
      exact Option.some.inj (found.symm.trans found')
    obtain ⟨read, taken', behind⟩ := Digits.exists_unsigned?_chars lexical' rest'
    rw [← split, taken] at taken'
    obtain rfl := Option.some.inj taken'
    have sizes := congrArg byteLength split
    have less : byteLength rest ≤ byteLength rest' := byteLength_le_of_suffix behind
    simp only [byteLength_append] at sizes
    rw [← byteLength_toList, ← same, utf8ByteSize_ofList]
    omega
  · rw [utf8ByteSize_ofList]
    exact (suffixAt?_read found).1

theorem exists_unsignedDecimal (mem : s.toList ∈ Digits.decimals)
    (stands : StandsAt text offset s) : ∃ read, unsignedDecimal text offset = some read := by
  obtain ⟨rest, found⟩ := exists_suffixAt?_of_decimal mem stands
  obtain ⟨w, lexical, same⟩ := mem
  obtain ⟨read, taken, -⟩ := Digits.exists_unsigned?_chars lexical rest
  rw [← same] at found
  refine ⟨(String.ofList read.1.chars, offsetOf text.toList read.2), ?_⟩
  simp only [unsignedDecimal, found, taken, Option.bind_eq_bind, Option.bind_some, Option.pure_def]

theorem LongestAt.unique {s' : String} (h : LongestAt Digits.decimals text offset s)
    (h' : LongestAt Digits.decimals text offset s') : s = s' := by
  obtain ⟨rest, found⟩ := exists_suffixAt?_of_decimal h.mem h.stands
  obtain ⟨rest', found'⟩ := exists_suffixAt?_of_decimal h'.mem h'.stands
  have split := Option.some.inj (found.symm.trans found')
  have size := Nat.le_antisymm (h'.longest s h.mem h.stands) (h.longest s' h'.mem h'.stands)
  rw [← byteLength_toList, ← byteLength_toList] at size
  exact String.toList_inj.1 (eq_of_append_of_byteLength split size).1

theorem unsignedDecimal_eq_some_iff : unsignedDecimal text offset = some (s, last) ↔
    LongestAt Digits.decimals text offset s ∧ last = offset + s.utf8ByteSize := by
  constructor
  · exact longestAt_of_unsignedDecimal
  · rintro ⟨longest, rfl⟩
    obtain ⟨⟨s', last'⟩, read⟩ := exists_unsignedDecimal longest.mem longest.stands
    obtain ⟨longest', rfl⟩ := longestAt_of_unsignedDecimal read
    rw [read, longest.unique longest']

theorem unsignedDecimal_eq_none_iff : unsignedDecimal text offset = none ↔
    ∀ s : String, s.toList ∈ Digits.decimals → ¬StandsAt text offset s := by
  constructor
  · intro missed s mem stands
    obtain ⟨read, found⟩ := exists_unsignedDecimal mem stands
    rw [missed] at found
    simp only [reduceCtorEq] at found
  · intro missed
    rw [Option.eq_none_iff_forall_ne_some]
    rintro ⟨s, last⟩ read
    have longest := (longestAt_of_unsignedDecimal read).1
    exact missed s longest.mem longest.stands

theorem skipWhitespace_eq_some_iff {found : ℕ} : skipWhitespace text offset = some found ↔
    ∃ (blanks : List Char) (c : Char), (∀ b ∈ blanks, isBlank b = true) ∧ isBlank c = false ∧
      StandsAt text offset (String.ofList (blanks ++ [c])) ∧
      found = offset + byteLength blanks := by
  simp only [skipWhitespace, Option.bind_eq_bind, Option.bind_eq_some_iff,
    standsAt_iff (List.append_ne_nil_of_right_ne_nil _ (List.cons_ne_nil _ _)), List.append_assoc,
    List.singleton_append]
  constructor
  · rintro ⟨cs, here, skipped⟩
    split at skipped
    · simp only [reduceCtorEq] at skipped
    · rename_i c rest visible
      have split := List.takeWhile_append_dropWhile (p := isBlank) (l := cs)
      have first := stops_dropWhile isBlank cs
      rw [visible] at split first
      rw [← split] at here
      rw [← Option.some.inj skipped, (suffixAt?_read here).1]
      exact ⟨_, c, List.all_eq_true.1 List.all_takeWhile, first, ⟨rest, here⟩, rfl⟩
  · rintro ⟨blanks, c, all_blank, visible, ⟨rest, here⟩, rfl⟩
    refine ⟨_, here, ?_⟩
    rw [dropWhile_append_of_stops all_blank (stops_cons.2 visible)]
    exact congrArg some (suffixAt?_read here).1

theorem mem_of_standsAt {cs : List Char} {place : ℕ} {c : Char}
    (here : suffixAt? text.toList offset = some cs) (behind : offset ≤ place)
    (stands : StandsAt text place (String.singleton c)) : c ∈ cs := by
  obtain ⟨rest, there⟩ := (standsAt_iff (List.cons_ne_nil c [])).1 stands
  obtain ⟨front, split, rfl⟩ := suffixAt?_eq_some_iff.1 here
  obtain ⟨front', split', rfl⟩ := suffixAt?_eq_some_iff.1 there
  rw [split, List.append_eq_append_iff] at split'
  rcases split' with ⟨between, -, rfl⟩ | ⟨between, rfl, same⟩
  · simp
  · cases between with
    | nil =>
      rw [← List.nil_append cs, ← same]
      exact List.mem_cons_self
    | cons b between =>
      have := b.utf8Size_pos
      simp only [byteLength_append, byteLength] at behind
      omega

theorem skipWhitespace_eq_none_iff : skipWhitespace text offset = none ↔
    (IsPlace text offset → ∀ (place : ℕ) (c : Char), offset ≤ place →
      StandsAt text place (String.singleton c) → isBlank c = true) := by
  constructor
  · intro missed place_at place c behind stands
    obtain ⟨cs, here⟩ := isPlace_iff.1 place_at
    simp only [skipWhitespace, here, Option.bind_eq_bind, Option.bind_some] at missed
    split at missed
    · rename_i all_blank
      exact List.dropWhile_eq_nil_iff.1 all_blank c (mem_of_standsAt here behind stands)
    · simp only [reduceCtorEq] at missed
  · intro all_blank
    rw [Option.eq_none_iff_forall_ne_some]
    intro found skipped
    obtain ⟨blanks, c, -, visible, stands, -⟩ := skipWhitespace_eq_some_iff.1 skipped
    obtain ⟨rest, here⟩ := (standsAt_iff (by simp)).1 stands
    rw [List.append_assoc] at here
    have stands' := (standsAt_iff (List.cons_ne_nil c [])).2 ⟨rest, (suffixAt?_read here).2⟩
    have blank := all_blank (isPlace_iff.2 ⟨_, here⟩) _ c (Nat.le_add_right _ _) stands'
    rw [visible] at blank
    exact Bool.false_ne_true blank

/-- Each scanner takes the longest match that begins at an offset and nothing where there is none.
Matches lie within the text and between characters; a number too large for its scanner is none. -/
theorem match_longest (text : String) (offset : ℕ) :
    (∀ width n, digits text offset width = some n ↔
      ∃ run : Digits.Field width, StandsAt text offset (String.ofList run.chars) ∧
        run.value < 2 ^ 32 ∧ run.value = n) ∧
    (∀ (number : ℤ) (last : ℕ), signedInt text offset = some (number, last) ↔
      ∃ (minus : Bool) (ds : List Char), SignedAt text offset minus ds last ∧
        Digits.value ds ≤ 2 ^ 63 - 1 ∧
        number = if minus then -(Digits.value ds : ℤ) else Digits.value ds) ∧
    (∀ (s : String) (last : ℕ), unsignedDecimal text offset = some (s, last) ↔
      LongestAt Digits.decimals text offset s ∧ last = offset + s.utf8ByteSize) ∧
    (unsignedDecimal text offset = none ↔
      ∀ s : String, s.toList ∈ Digits.decimals → ¬StandsAt text offset s) ∧
    (∀ (s : String) (last : ℕ), unsignedDecimal text offset = some (s, last) →
      IsPlace text offset ∧ IsPlace text last) ∧
    (∀ found, skipWhitespace text offset = some found ↔
      ∃ (blanks : List Char) (c : Char), (∀ b ∈ blanks, isBlank b = true) ∧ isBlank c = false ∧
        StandsAt text offset (String.ofList (blanks ++ [c])) ∧
        found = offset + byteLength blanks) ∧
    (skipWhitespace text offset = none ↔
      (IsPlace text offset → ∀ (place : ℕ) (c : Char), offset ≤ place →
        StandsAt text place (String.singleton c) → isBlank c = true)) := by
  refine ⟨fun _ _ => digits_eq_some_iff, fun _ _ => signedInt_eq_some_iff,
    fun _ _ => unsignedDecimal_eq_some_iff, unsignedDecimal_eq_none_iff, ?_,
    fun _ => skipWhitespace_eq_some_iff, skipWhitespace_eq_none_iff⟩
  rintro s last read
  obtain ⟨longest, rfl⟩ := unsignedDecimal_eq_some_iff.1 read
  refine longest.stands.isPlace ?_
  rintro rfl
  exact ne_nil_of_mem_decimals longest.mem rfl

end Scan

end PolicyValues
