import PolicyValues.Binary.Base64
import PolicyValues.Binary.Hex
import PolicyValues.Proofs.Text.Characters

/-! Byte strings read back from their hexadecimal and from their base64 texts. -/
namespace PolicyValues

namespace HexBinary

theorem digitValue?_hexDigit {n : Nat} (h : n < 16) :
    digitValue? (Text.hexDigit n).toUInt8 = some n := by
  revert n
  decide

theorem hexDigit_ascii {n : Nat} (h : n < 16) : (Text.hexDigit n).toNat < 128 := by
  revert n
  decide

theorem ascii_of_mem_chars (x : HexBinary) : ∀ c ∈ x.chars, c.toNat < 128 := by
  intro c hc
  obtain ⟨byte, _, hc⟩ := List.mem_flatMap.1 hc
  have := byte.toNat_lt
  simp only [byteChars, List.mem_cons, List.not_mem_nil, or_false] at hc
  rcases hc with rfl | rfl
  · exact hexDigit_ascii (by omega)
  · exact hexDigit_ascii (by omega)

theorem length_chars (x : HexBinary) : x.chars.length = 2 * x.bytes.length := by
  rw [chars, List.length_flatMap]
  simp only [byteChars, List.length_cons, List.length_nil, List.map_const', List.sum_replicate_nat]
  omega

theorem pairs_chars (position : Nat) (bytes : List UInt8) :
    pairs position ((bytes.flatMap byteChars).map Char.toUInt8) = .ok bytes := by
  induction bytes generalizing position with
  | nil => rfl
  | cons byte bytes ih =>
    have := byte.toNat_lt
    have whole : 16 * (byte.toNat / 16) + byte.toNat % 16 = byte.toNat := by omega
    simp only [List.flatMap_cons, byteChars, List.cons_append, List.nil_append, List.map_cons,
      pairs, digit, digitValue?_hexDigit (show byte.toNat / 16 < 16 by omega),
      digitValue?_hexDigit (show byte.toNat % 16 < 16 by omega), bind, Except.bind, pure,
      Except.pure, whole, UInt8.ofNat_toNat, ih]

theorem parse_text (x : HexBinary) : parse x.text = .ok x := by
  have symbols : Text.bytes x.text.toList = x.chars.map Char.toUInt8 := by
    rw [text, String.toList_ofList, Text.bytes_of_ascii x.ascii_of_mem_chars]
  have even : ¬ (x.chars.map Char.toUInt8).length % 2 = 1 := by
    rw [List.length_map, length_chars]
    omega
  have decoded : decode (x.chars.map Char.toUInt8) = .ok x.bytes := by
    rw [decode, if_neg even, chars, pairs_chars]
  simp only [parse, symbols, decoded]

end HexBinary

namespace Base64Binary

theorem symbolValue?_symbolChar {n : Nat} (h : n < 64) :
    symbolValue? (symbolChar n).toUInt8 = some n := by
  revert n
  decide

theorem symbolChar_ne_pad {n : Nat} (h : n < 64) : (symbolChar n).toUInt8 ≠ pad := by
  revert n
  decide

def IsCompact (c : Char) : Prop := c.toNat < 128 ∧ Text.isAsciiBlank c = false

theorem isCompact_symbolChar {n : Nat} (h : n < 64) : IsCompact (symbolChar n) := by
  unfold IsCompact
  revert n
  decide

theorem isCompact_of_mem_encode (bytes : List UInt8) : ∀ c ∈ encode bytes, IsCompact c := by
  have equals : IsCompact '=' := by
    unfold IsCompact
    decide
  induction bytes using encode.induct with
  | case1 => exact fun _ h => absurd h List.not_mem_nil
  | case2 x =>
    have := x.toNat_lt
    simp only [encode, List.mem_cons, List.not_mem_nil, or_false, forall_eq_or_imp, forall_eq]
    exact ⟨isCompact_symbolChar (by omega), isCompact_symbolChar (by omega), equals, equals⟩
  | case3 x y =>
    have := x.toNat_lt
    have := y.toNat_lt
    simp only [encode, List.mem_cons, List.not_mem_nil, or_false, forall_eq_or_imp, forall_eq]
    exact ⟨isCompact_symbolChar (by omega), isCompact_symbolChar (by omega),
      isCompact_symbolChar (by omega), equals⟩
  | case4 x y z rest ih =>
    have := x.toNat_lt
    have := y.toNat_lt
    have := z.toNat_lt
    simp only [encode, List.mem_cons, forall_eq_or_imp]
    exact ⟨isCompact_symbolChar (by omega), isCompact_symbolChar (by omega),
      isCompact_symbolChar (by omega), isCompact_symbolChar (by omega), ih⟩

theorem compact_encode (bytes : List UInt8) :
    compact (encode bytes) = (encode bytes).map Char.toUInt8 := by
  have compact_chars := isCompact_of_mem_encode bytes
  rw [compact,
    List.filter_eq_self.2 fun c hc => by simp only [(compact_chars c hc).2, Bool.not_false],
    Text.bytes_of_ascii fun c hc => (compact_chars c hc).1]

theorem length_encode_mod (bytes : List UInt8) : (encode bytes).length % 4 = 0 := by
  induction bytes using encode.induct with
  | case1 => rfl
  | case2 x => simp only [encode, List.length_cons, List.length_nil]
  | case3 x y => simp only [encode, List.length_cons, List.length_nil]
  | case4 x y z rest ih =>
    simp only [encode, List.length_cons]
    omega

theorem symbol_symbolChar (position : Nat) {n : Nat} (h : n < 64) :
    symbol position (symbolChar n).toUInt8 = .ok n := by
  simp only [symbol, symbolValue?_symbolChar h]

theorem decodeLast_symbols (position : Nat) {a b c d : Nat} (ha : a < 64) (hb : b < 64)
    (hc : c < 64) (hd : d < 64) :
    decodeLast position
        ([symbolChar a, symbolChar b, symbolChar c, symbolChar d].map Char.toUInt8) =
      .ok (unpack a b c d) := by
  simp [decodeLast, symbols, symbol_symbolChar, symbolChar_ne_pad, unpackLast, bind, Except.bind,
    pure, Except.pure, ha, hb, hc, hd]

theorem decodeLast_pad_one (position : Nat) {a b c : Nat} (ha : a < 64) (hb : b < 64) (hc : c < 64)
    (spare : c % 4 = 0) :
    decodeLast position ([symbolChar a, symbolChar b, symbolChar c, '='].map Char.toUInt8) =
      .ok ((unpack a b c 0).take 2) := by
  have equals : '='.toUInt8 = pad := rfl
  simp [decodeLast, symbols, symbol_symbolChar, symbolChar_ne_pad, unpackLast, bind, Except.bind,
    pure, Except.pure, ha, hb, hc, equals, spare]

theorem decodeLast_pad_two (position : Nat) {a b : Nat} (ha : a < 64) (hb : b < 64)
    (spare : b % 16 = 0) :
    decodeLast position ([symbolChar a, symbolChar b, '=', '='].map Char.toUInt8) =
      .ok ((unpack a b 0 0).take 1) := by
  have equals : '='.toUInt8 = pad := rfl
  simp [decodeLast, symbols, symbol_symbolChar, symbolChar_ne_pad, unpackLast, bind, Except.bind,
    pure, Except.pure, ha, hb, equals, spare]

theorem decodeFrom_symbols (position : Nat) {a b c d : Nat} (ha : a < 64) (hb : b < 64)
    (hc : c < 64) (hd : d < 64) {more : List UInt8} (hmore : more ≠ []) {bytes : List UInt8}
    (h : decodeFrom (position + 4) more = .ok bytes) :
    decodeFrom position
        ((symbolChar a).toUInt8 :: (symbolChar b).toUInt8 :: (symbolChar c).toUInt8 ::
          (symbolChar d).toUInt8 :: more) = .ok (unpack a b c d ++ bytes) := by
  obtain ⟨e, rest, rfl⟩ := List.exists_cons_of_ne_nil hmore
  simp only [decodeFrom, symbol_symbolChar _ ha, symbol_symbolChar _ hb, symbol_symbolChar _ hc,
    symbol_symbolChar _ hd, h, bind, Except.bind, pure, Except.pure]

theorem unpack_packed (x y z : UInt8) :
    unpack (x.toNat / 4) (x.toNat % 4 * 16 + y.toNat / 16) (y.toNat % 16 * 4 + z.toNat / 64)
      (z.toNat % 64) = [x, y, z] := by
  have := x.toNat_lt
  have := y.toNat_lt
  have := z.toNat_lt
  have first : x.toNat / 4 * 4 + (x.toNat % 4 * 16 + y.toNat / 16) / 16 = x.toNat := by omega
  have second : (x.toNat % 4 * 16 + y.toNat / 16) % 16 * 16 +
      (y.toNat % 16 * 4 + z.toNat / 64) / 4 = y.toNat := by omega
  have third : (y.toNat % 16 * 4 + z.toNat / 64) % 4 * 64 + z.toNat % 64 = z.toNat := by omega
  simp only [unpack, first, second, third, UInt8.ofNat_toNat]

theorem decodeFrom_encode (position : Nat) (bytes : List UInt8) :
    decodeFrom position ((encode bytes).map Char.toUInt8) = .ok bytes := by
  induction bytes using encode.induct generalizing position with
  | case1 => rfl
  | case2 x =>
    have := x.toNat_lt
    -- The bytes that are missing are packed as zeros, and what they unpack to is cut off.
    have packed := unpack_packed x 0 0
    simp only [UInt8.toNat_zero, Nat.zero_div, Nat.zero_mod, Nat.zero_mul, Nat.add_zero] at packed
    have last := decodeLast_pad_two position (show x.toNat / 4 < 64 by omega)
      (show x.toNat % 4 * 16 < 64 by omega) (by omega)
    rw [packed] at last
    exact last
  | case3 x y =>
    have := x.toNat_lt
    have := y.toNat_lt
    have packed := unpack_packed x y 0
    simp only [UInt8.toNat_zero, Nat.zero_div, Nat.zero_mod, Nat.add_zero] at packed
    have last := decodeLast_pad_one position (show x.toNat / 4 < 64 by omega)
      (show x.toNat % 4 * 16 + y.toNat / 16 < 64 by omega) (show y.toNat % 16 * 4 < 64 by omega)
      (by omega)
    rw [packed] at last
    exact last
  | case4 x y z rest ih =>
    have := x.toNat_lt
    have := y.toNat_lt
    have := z.toNat_lt
    have packed := unpack_packed x y z
    -- Only the last four symbols may be padded, so they are decoded apart from the others.
    by_cases empty : rest = []
    · subst empty
      have last := decodeLast_symbols position (show x.toNat / 4 < 64 by omega)
        (show x.toNat % 4 * 16 + y.toNat / 16 < 64 by omega)
        (show y.toNat % 16 * 4 + z.toNat / 64 < 64 by omega) (show z.toNat % 64 < 64 by omega)
      rw [packed] at last
      exact last
    · have more : (encode rest).map Char.toUInt8 ≠ [] := by
        rw [ne_eq, List.map_eq_nil_iff]
        unfold encode
        split <;> simp_all
      have step := decodeFrom_symbols position (show x.toNat / 4 < 64 by omega)
        (show x.toNat % 4 * 16 + y.toNat / 16 < 64 by omega)
        (show y.toNat % 16 * 4 + z.toNat / 64 < 64 by omega) (show z.toNat % 64 < 64 by omega)
        more (ih (position + 4))
      rw [packed] at step
      exact step

theorem decode_encode (bytes : List UInt8) :
    decode ((encode bytes).map Char.toUInt8) = .ok bytes := by
  have whole := length_encode_mod bytes
  rw [decode, List.length_map, if_neg (by omega), decodeFrom_encode]

theorem parse_text (x : Base64Binary) : parse x.text = .ok x := by
  have symbols : compact x.text.toList = (encode x.bytes).map Char.toUInt8 := by
    rw [text, String.toList_ofList, compact_encode]
  simp only [parse, symbols, decode_encode]

end Base64Binary

end PolicyValues
