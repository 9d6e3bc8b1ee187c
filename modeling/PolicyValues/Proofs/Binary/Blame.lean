import Mathlib.Data.List.Basic
import PolicyValues.Proofs.Binary.Canonical

/-!
Faults that name a byte. A decoder names the byte at the place it has counted to. Base64 is decoded
without its blanks, so there the byte stands further on in the text, by the blanks before it.
-/
namespace PolicyValues

def Malformation.byte? : Malformation → Option (UInt8 × Nat)
  | .hexCharacter byte position => some (byte, position)
  | .base64Symbol byte position => some (byte, position)
  | .base64LastSymbol byte position => some (byte, position)
  | _ => none

def NamesFrom {α : Type} (first : Nat) (symbols : List UInt8) (answer : Except Malformation α) :
    Prop :=
  ∀ reason byte position, answer = .error reason → reason.byte? = some (byte, position) →
    ∃ i, position = first + i ∧ symbols[i]? = some byte

namespace NamesFrom

variable {α β : Type} {first : Nat} {symbols : List UInt8}

theorem ok (a : α) : NamesFrom first symbols (.ok a) := nofun

theorem nameless {reason : Malformation} (h : reason.byte? = none) :
    NamesFrom (α := α) first symbols (.error reason) := by
  rintro reason' byte position same named
  rw [← Except.error.inj same, h] at named
  simp only [reduceCtorEq] at named

theorem at_index {reason : Malformation} {byte : UInt8} (i : Nat)
    (named : reason.byte? = some (byte, first + i)) (stands : symbols[i]? = some byte) :
    NamesFrom (α := α) first symbols (.error reason) := by
  rintro reason' byte' position same named'
  rw [← Except.error.inj same, named] at named'
  obtain ⟨rfl, rfl⟩ := Prod.mk.inj (Option.some.inj named')
  exact ⟨i, rfl, stands⟩

theorem bind {answer : Except Malformation α} {next : α → Except Malformation β}
    (h : NamesFrom first symbols answer)
    (then_names : ∀ a, answer = .ok a → NamesFrom first symbols (next a)) :
    NamesFrom first symbols (answer >>= next) := by
  cases answer with
  | error reason =>
    intro reason' byte position same named
    obtain rfl := Except.error.inj same
    exact h reason byte position rfl named
  | ok a => exact then_names a rfl

theorem behind (front : List UInt8) {answer : Except Malformation α}
    (h : NamesFrom (first + front.length) symbols answer) :
    NamesFrom first (front ++ symbols) answer := by
  intro reason byte position failed named
  obtain ⟨i, rfl, stands⟩ := h reason byte position failed named
  refine ⟨front.length + i, Nat.add_assoc _ _ _, ?_⟩
  rw [List.getElem?_append_right (Nat.le_add_right _ _), Nat.add_sub_cancel_left, stands]

theorem before (back : List UInt8) {answer : Except Malformation α}
    (h : NamesFrom first symbols answer) : NamesFrom first (symbols ++ back) answer := by
  intro reason byte position failed named
  obtain ⟨i, rfl, stands⟩ := h reason byte position failed named
  have inside : i < symbols.length := (List.getElem?_eq_some_iff.1 stands).1
  exact ⟨i, rfl, by rw [List.getElem?_append_left inside, stands]⟩

end NamesFrom

/-! ## Decoders -/

namespace HexBinary

theorem digit_names (position : Nat) (byte : UInt8) (rest : List UInt8) :
    NamesFrom position (byte :: rest) (digit position byte) := by
  unfold digit
  split
  · exact .ok _
  · exact .at_index 0 rfl rfl

theorem pairs_names (position : Nat) (symbols : List UInt8) :
    NamesFrom position symbols (pairs position symbols) := by
  induction position, symbols using pairs.induct with
  | case1 position high low rest ih =>
    rw [pairs]
    refine (digit_names position high _).bind fun h _ => ?_
    refine NamesFrom.bind (.behind [high] (digit_names _ low rest)) fun l _ => ?_
    exact NamesFrom.bind (.behind [high, low] ih) fun bytes _ => .ok _
  | case2 position symbols few =>
    rw [pairs]
    · exact .ok _
    · exact few

theorem decode_names (symbols : List UInt8) : NamesFrom 0 symbols (decode symbols) := by
  unfold decode
  split
  · exact .nameless rfl
  · exact pairs_names 0 symbols

end HexBinary

namespace Base64Binary

theorem symbol_names (position : Nat) (byte : UInt8) (rest : List UInt8) :
    NamesFrom position (byte :: rest) (symbol position byte) := by
  unfold symbol
  split
  · exact .ok _
  · exact .at_index 0 rfl rfl

theorem symbols_names (position : Nat) (written : List UInt8) :
    NamesFrom position written (symbols position written) := by
  induction written generalizing position with
  | nil => exact .ok _
  | cons byte rest ih =>
    rw [symbols]
    refine (symbol_names position byte rest).bind fun n _ => ?_
    exact NamesFrom.bind (.behind [byte] (ih (position + 1))) fun ns _ => .ok _

theorem unpackLast_names {position : Nat} {written : List UInt8} {ns : List Nat}
    (count : written.length = ns.length) :
    NamesFrom position written (unpackLast position written ns) := by
  have stands (i : Nat) (inside : i < ns.length) : written[i]? = some (written.getD i 0) := by
    rw [List.getD_eq_getElem?_getD, List.getElem?_eq_getElem (count ▸ inside), Option.getD_some]
  unfold unpackLast
  split
  · exact .ok _
  · split
    · exact .ok _
    · exact .at_index 2 rfl (stands 2 (Nat.lt_succ_self 2))
  · split
    · exact .ok _
    · exact .at_index 1 rfl (stands 1 (Nat.lt_succ_self 1))
  · exact .ok _

theorem decodeLast_names (position : Nat) (tail : List UInt8) :
    NamesFrom position tail (decodeLast position tail) := by
  have parts : tail.takeWhile (· != pad) ++ tail.dropWhile (· != pad) = tail :=
    List.takeWhile_append_dropWhile
  have padded := List.head?_dropWhile_not (· != pad) tail
  unfold decodeLast
  generalize tail.takeWhile (· != pad) = written at parts ⊢
  generalize tail.dropWhile (· != pad) = padding at parts padded ⊢
  subst parts
  refine ((symbols_names position written).before padding).bind fun values read => ?_
  split
  · rename_i misplaced
    obtain ⟨first, others, rfl⟩ := List.exists_cons_of_ne_nil misplaced.1
    simp only [List.head?_cons, bne_eq_false_iff_eq] at padded
    subst padded
    refine .at_index written.length rfl ?_
    rw [List.getElem?_append_right (Nat.le_refl _), Nat.sub_self, List.getElem?_cons_zero]
  · split
    · exact .ok _
    · split
      · exact .nameless rfl
      · split
        · exact .nameless rfl
        · have count : written.length = values.length := by
            rw [(of_symbols read).1, List.length_map, List.length_map]
          exact (unpackLast_names count).before padding

theorem decodeFrom_names (position : Nat) (symbols : List UInt8) :
    NamesFrom position symbols (decodeFrom position symbols) := by
  induction position, symbols using decodeFrom.induct with
  | case1 position a b c d e rest ih =>
    rw [decodeFrom]
    refine (symbol_names position a _).bind fun _ _ => ?_
    refine NamesFrom.bind (.behind [a] (symbol_names _ b _)) fun _ _ => ?_
    refine NamesFrom.bind (.behind [a, b] (symbol_names _ c _)) fun _ _ => ?_
    refine NamesFrom.bind (.behind [a, b, c] (symbol_names _ d _)) fun _ _ => ?_
    exact NamesFrom.bind (.behind [a, b, c, d] ih) fun _ _ => .ok _
  | case2 position tail short =>
    rw [decodeFrom]
    · exact decodeLast_names position tail
    · exact short

theorem decode_names (symbols : List UInt8) : NamesFrom 0 symbols (decode symbols) := by
  unfold decode
  simp only
  split
  · rename_i stray
    have some_symbol : symbols ≠ [] := by
      rintro rfl
      exact absurd stray.1 (by decide)
    refine .at_index (symbols.length - 1) (by rw [Nat.zero_add]; rfl) ?_
    rw [← List.getLast?_eq_getElem?, List.getLastD_eq_getLast?,
      List.getLast?_eq_some_getLast some_symbol, Option.getD_some]
  · exact decodeFrom_names 0 symbols

end Base64Binary

/-! ## Places among blanks -/

namespace Text

def isBlankByte (byte : UInt8) : Bool := isAsciiBlank (charOf byte)

theorem isAsciiBlank_of_not_ascii {c : Char} (h : 128 ≤ c.toNat) : isAsciiBlank c = false := by
  have other (blank : Char) (ascii : blank.toNat < 128) : (c == blank) = false := by
    rw [beq_eq_false_iff_ne]
    rintro rfl
    omega
  simp only [isAsciiBlank, other ' ' (by decide), other '\t' (by decide), other '\n' (by decide),
    other '\x0c' (by decide), other '\r' (by decide), Bool.or_self]

theorem utf8EncodeChar_filter_not_blank (c : Char) :
    ((String.utf8EncodeChar c).filter fun byte => !isBlankByte byte) =
      if isAsciiBlank c then [] else String.utf8EncodeChar c := by
  by_cases ascii : c.toNat < 128
  · rw [utf8EncodeChar_of_ascii ascii, List.filter_cons, isBlankByte, charOf_toUInt8 ascii]
    cases isAsciiBlank c <;> rfl
  · rw [isAsciiBlank_of_not_ascii (Nat.not_lt.1 ascii), if_neg Bool.false_ne_true,
      List.filter_eq_self]
    intro byte mem
    have large := le_of_mem_utf8EncodeChar (Nat.not_lt.1 ascii) byte mem
    rw [isBlankByte, isAsciiBlank_of_not_ascii (by rwa [toNat_charOf]), Bool.not_false]

theorem bytes_filter_not_blank (cs : List Char) :
    bytes (cs.filter fun c => !isAsciiBlank c) =
      (bytes cs).filter fun byte => !isBlankByte byte := by
  induction cs with
  | nil => rfl
  | cons c cs ih =>
    simp only [bytes] at ih
    rw [bytes, bytes, List.flatMap_cons, List.filter_append, utf8EncodeChar_filter_not_blank, ← ih]
    cases blank : isAsciiBlank c with
    | true =>
      simp only [List.filter_cons, blank, Bool.not_true, Bool.false_eq_true, if_false, if_true,
        List.nil_append]
    | false =>
      simp only [List.filter_cons, blank, Bool.not_false, Bool.false_eq_true, if_false, if_true,
        List.flatMap_cons]

theorem exists_place_among_blanks {blank : UInt8 → Bool} {symbols : List UInt8} {i : Nat}
    {byte : UInt8} (h : (symbols.filter fun byte => !blank byte)[i]? = some byte) :
    ∃ place, symbols[place]? = some byte ∧ blank byte = false ∧
      place = i + (symbols.take place).countP blank := by
  induction symbols generalizing i with
  | nil => simp only [List.filter_nil, List.getElem?_nil, reduceCtorEq] at h
  | cons first rest ih =>
    cases kind : blank first with
    | true =>
      simp only [List.filter_cons, kind, Bool.not_true, Bool.false_eq_true, if_false] at h
      obtain ⟨place, stands, proper, counted⟩ := ih h
      refine ⟨place + 1, stands, proper, ?_⟩
      rw [List.take_succ_cons, List.countP_cons_of_pos kind]
      omega
    | false =>
      simp only [List.filter_cons, kind, Bool.not_false, if_true] at h
      cases i with
      | zero =>
        obtain rfl := Option.some.inj h
        exact ⟨0, rfl, kind, rfl⟩
      | succ i =>
        obtain ⟨place, stands, proper, counted⟩ := ih h
        refine ⟨place + 1, stands, proper, ?_⟩
        rw [List.take_succ_cons, List.countP_cons_of_neg (Bool.eq_false_iff.1 kind)]
        omega

end Text

/-! ## Faults of whole texts -/

variable {text input : String} {subject : Subject} {offset position : Nat} {byte : UInt8}

theorem HexBinary.byte_at_offset
    (h : parse text = .error (.malformed subject input offset (.hexCharacter byte position))) :
    input = text ∧ (Text.bytes text.toList)[offset]? = some byte := by
  unfold parse at h
  simp only at h
  split at h
  · simp only [reduceCtorEq] at h
  · rename_i byte' position' failed
    obtain ⟨-, rfl, rfl, same⟩ := ValueError.malformed.inj (Except.error.inj h)
    obtain ⟨rfl, rfl⟩ := Malformation.hexCharacter.inj same
    obtain ⟨i, place, stands⟩ := decode_names _ _ _ _ failed rfl
    rw [Nat.zero_add] at place
    exact ⟨rfl, place ▸ stands⟩
  · rename_i reason other failed
    obtain ⟨-, -, -, rfl⟩ := ValueError.malformed.inj (Except.error.inj h)
    exact absurd rfl (other byte position)

theorem Base64Binary.byte_behind_blanks {reason : Malformation}
    (named : reason = .base64Symbol byte position ∨ reason = .base64LastSymbol byte position)
    (h : parse text = .error (.malformed subject input offset reason)) :
    input = text ∧ ∃ place, (Text.bytes text.toList)[place]? = some byte ∧
      Text.isBlankByte byte = false ∧
      place = offset + ((Text.bytes text.toList).take place).countP Text.isBlankByte := by
  unfold parse at h
  simp only at h
  split at h
  · simp only [reduceCtorEq] at h
  · rename_i reason' failed
    obtain ⟨-, rfl, rfl, rfl⟩ := ValueError.malformed.inj (Except.error.inj h)
    obtain ⟨shown, counted⟩ : reason'.byte? = some (byte, position) ∧
        faultPosition (compact text.toList).length reason' = position := by
      rcases named with rfl | rfl <;> exact ⟨rfl, rfl⟩
    obtain ⟨i, place, stands⟩ := decode_names _ _ _ _ failed shown
    rw [Nat.zero_add, ← counted] at place
    rw [compact, Text.bytes_filter_not_blank, ← place] at stands
    exact ⟨rfl, Text.exists_place_among_blanks stands⟩

/-- A hexadecimal text is blamed for the byte at the offset. A base64 text is blamed for a byte that
stands behind the offset by the blanks before it. -/
theorem blamed_byte_stands_behind_blanks (text input : String) (subject : Subject)
    (offset position : Nat) (byte : UInt8) :
    (HexBinary.parse text =
        .error (.malformed subject input offset (.hexCharacter byte position)) →
      input = text ∧ (Text.bytes input.toList)[offset]? = some byte) ∧
    ∀ reason : Malformation,
      reason = .base64Symbol byte position ∨ reason = .base64LastSymbol byte position →
      Base64Binary.parse text = .error (.malformed subject input offset reason) →
        input = text ∧ ∃ place, (Text.bytes input.toList)[place]? = some byte ∧
          Text.isBlankByte byte = false ∧
          place = offset + ((Text.bytes input.toList).take place).countP Text.isBlankByte := by
  refine ⟨fun fault => ?_, fun reason named fault => ?_⟩
  · obtain ⟨rfl, stands⟩ := HexBinary.byte_at_offset fault
    exact ⟨rfl, stands⟩
  · obtain ⟨rfl, stands⟩ := Base64Binary.byte_behind_blanks named fault
    exact ⟨rfl, stands⟩

theorem blamed_bytes_found :
    (HexBinary.parse "0aé" = .error (.malformed .hexBinary "0aé" 2 (.hexCharacter 195 2)) ∧
      (Text.bytes "0aé".toList)[2]? = some 195) ∧
    (Base64Binary.parse "AA A!" = .error (.malformed .base64Binary "AA A!" 3 (.base64Symbol 33 3)) ∧
      ∃ place, (Text.bytes "AA A!".toList)[place]? = some 33 ∧ Text.isBlankByte 33 = false ∧
        place = 3 + ((Text.bytes "AA A!".toList).take place).countP Text.isBlankByte) ∧
    (Base64Binary.parse "A\nB = =" =
        .error (.malformed .base64Binary "A\nB = =" 1 (.base64LastSymbol 66 1)) ∧
      ∃ place, (Text.bytes "A\nB = =".toList)[place]? = some 66 ∧ Text.isBlankByte 66 = false ∧
        place = 1 + ((Text.bytes "A\nB = =".toList).take place).countP Text.isBlankByte) := by
  have letter : HexBinary.parse "0aé" =
      .error (.malformed .hexBinary "0aé" 2 (.hexCharacter 195 2)) := by
    decide +kernel
  have mark : Base64Binary.parse "AA A!" =
      .error (.malformed .base64Binary "AA A!" 3 (.base64Symbol 33 3)) := by
    decide +kernel
  have last : Base64Binary.parse "A\nB = =" =
      .error (.malformed .base64Binary "A\nB = =" 1 (.base64LastSymbol 66 1)) := by
    decide +kernel
  exact ⟨⟨letter, ((blamed_byte_stands_behind_blanks _ _ _ _ _ _).1 letter).2⟩,
    ⟨mark, ((blamed_byte_stands_behind_blanks _ _ _ _ _ _).2 _ (.inl rfl) mark).2⟩,
    ⟨last, ((blamed_byte_stands_behind_blanks _ _ _ _ _ _).2 _ (.inr rfl) last).2⟩⟩

theorem blamed_mark_not_at_offset :
    Base64Binary.parse "AA A!" = .error (.malformed .base64Binary "AA A!" 3 (.base64Symbol 33 3)) ∧
      (Text.bytes "AA A!".toList)[3]? ≠ some 33 := by
  decide +kernel

end PolicyValues
