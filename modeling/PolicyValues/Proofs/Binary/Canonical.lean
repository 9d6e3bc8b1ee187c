import PolicyValues.Proofs.Binary.RoundTrip
import PolicyValues.Proofs.Text.Digits

/-!
Each byte string has one text in either form, up to the case of hexadecimal digits and up to the
blanks between base64 symbols: what a text reads as shows that text again.
-/
namespace PolicyValues

namespace HexBinary
open Text (hexDigit)

theorem digit_eq_ok_iff {position : Nat} {byte : UInt8} {n : Nat} :
    digit position byte = .ok n ↔ n < 16 ∧ (Text.charOf byte).toLower = hexDigit n := by
  rw [← Text.hexValue?_eq_some_iff]
  unfold digit digitValue? Text.charOf
  cases Text.hexValue? (Char.ofNat byte.toNat) with
  | none => simp only [reduceCtorEq]
  | some m => simp only [Except.ok.injEq, Option.some.injEq]

theorem pairs_eq_ok_iff {position : Nat} {symbols bytes : List UInt8}
    (even : symbols.length % 2 = 0) :
    pairs position symbols = .ok bytes ↔
      Text.lower (symbols.map Text.charOf) = bytes.flatMap byteChars := by
  induction position, symbols using pairs.induct generalizing bytes with
  | case1 position high low rest ih =>
    have shorter : rest.length % 2 = 0 := by
      simp only [List.length_cons] at even
      omega
    simp only [pairs, bind_eq_ok_iff, digit_eq_ok_iff, ih shorter, pure, Except.pure,
      Except.ok.injEq, List.map_cons, Text.lower_cons]
    constructor
    · rintro ⟨h, ⟨hsmall, hlow⟩, l, ⟨lsmall, llow⟩, more, hmore, rfl⟩
      have code : (UInt8.ofNat (16 * h + l)).toNat = 16 * h + l := by
        rw [UInt8.toNat_ofNat']
        omega
      have first : (16 * h + l) / 16 = h := by omega
      have second : (16 * h + l) % 16 = l := by omega
      simp only [List.flatMap_cons, byteChars, code, first, second, hlow, llow, hmore,
        List.cons_append, List.nil_append]
    · intro shown
      cases bytes with
      | nil => simp only [List.flatMap_nil, reduceCtorEq] at shown
      | cons byte more =>
        have small := byte.toNat_lt
        simp only [List.flatMap_cons, byteChars, List.cons_append, List.nil_append,
          List.cons.injEq] at shown
        obtain ⟨hlow, llow, hmore⟩ := shown
        refine ⟨_, ⟨?_, hlow⟩, _, ⟨?_, llow⟩, more, hmore, ?_⟩
        · omega
        · omega
        · rw [Nat.div_add_mod, UInt8.ofNat_toNat]
  | case2 symbols _ few =>
    obtain rfl : symbols = [] := by
      rcases symbols with _ | ⟨a, _ | ⟨b, rest⟩⟩
      · rfl
      · simp at even
      · exact absurd rfl (few a b rest)
    cases bytes with
    | nil => simp only [pairs, List.map_nil, List.flatMap_nil, Text.lower_nil]
    | cons byte more =>
      simp only [pairs, List.map_nil, List.flatMap_cons, byteChars, List.cons_append,
        reduceCtorEq, Except.ok.injEq, Text.lower_nil]

theorem parse_eq_ok_iff_decode {text : String} {x : HexBinary} :
    parse text = .ok x ↔ decode (Text.bytes text.toList) = .ok x.bytes := by
  obtain ⟨bytes⟩ := x
  unfold parse
  simp only
  split <;> rename_i decoded <;> simp only [decoded, Except.ok.injEq, mk.injEq, reduceCtorEq]

theorem parse_eq_ok_iff {text : String} {x : HexBinary} :
    parse text = .ok x ↔ Text.lower text.toList = x.chars := by
  have ascii := x.ascii_of_mem_chars
  rw [parse_eq_ok_iff_decode]
  constructor
  · intro decoded
    unfold decode at decoded
    split at decoded
    · simp only [reduceCtorEq] at decoded
    · rename_i even
      have shown := (pairs_eq_ok_iff (by omega)).1 decoded
      -- No byte past ASCII shows as a digit, so the bytes are those of the characters themselves.
      have plain : ∀ byte ∈ Text.bytes text.toList, byte.toNat < 128 := by
        intro byte mem
        rw [← Text.toNat_charOf]
        refine Text.toNat_lt_of_toLower (ascii _ ?_)
        rw [chars, ← shown]
        exact List.mem_map_of_mem (List.mem_map_of_mem mem)
      rw [Text.eq_map_of_bytes_ascii plain, shown, chars]
  · intro shown
    have plain : ∀ c ∈ text.toList, c.toNat < 128 := fun c mem =>
      Text.toNat_lt_of_toLower (ascii _ (shown ▸ List.mem_map_of_mem mem))
    have length : text.toList.length = 2 * x.bytes.length := by
      rw [← length_chars, ← shown, Text.lower, List.length_map]
    have same : (text.toList.map Char.toUInt8).map Text.charOf = text.toList := by
      rw [List.map_map]
      exact (List.map_congr_left fun c mem => Text.charOf_toUInt8 (plain c mem)).trans
        (List.map_id _)
    rw [Text.bytes_of_ascii plain, decode, List.length_map, if_neg (by omega),
      pairs_eq_ok_iff (by rw [List.length_map]; omega), same, shown, chars]

end HexBinary

namespace Base64Binary

theorem toNat_symbolChar {n : Nat} (h : n < 64) : (symbolChar n).toUInt8.toNat =
    if n < 26 then n + 65 else if n < 52 then n + 71 else if n < 62 then n - 4
      else if n = 62 then 43 else 47 := by
  revert n
  decide

theorem symbolValue?_eq_some_iff {byte : UInt8} {n : Nat} :
    symbolValue? byte = some n ↔ n < 64 ∧ byte = (symbolChar n).toUInt8 := by
  constructor
  · intro h
    simp only [symbolValue?] at h
    have small : n < 64 := by grind
    refine ⟨small, UInt8.toNat_inj.1 ?_⟩
    rw [toNat_symbolChar small]
    split at h
    · grind
    · split at h
      · grind
      · split at h <;> grind
  · rintro ⟨small, rfl⟩
    exact symbolValue?_symbolChar small

theorem symbol_eq_ok_iff {position : Nat} {byte : UInt8} {n : Nat} :
    symbol position byte = .ok n ↔ n < 64 ∧ byte = (symbolChar n).toUInt8 := by
  rw [← symbolValue?_eq_some_iff]
  unfold symbol
  cases symbolValue? byte with
  | none => simp only [reduceCtorEq]
  | some m => simp only [Except.ok.injEq, Option.some.injEq]

theorem of_symbols {position : Nat} {written : List UInt8} {ns : List Nat}
    (h : symbols position written = .ok ns) :
    written = (ns.map symbolChar).map Char.toUInt8 ∧ ∀ n ∈ ns, n < 64 := by
  induction written generalizing position ns with
  | nil =>
    obtain rfl := Except.ok.inj h
    exact ⟨rfl, fun _ mem => absurd mem List.not_mem_nil⟩
  | cons byte rest ih =>
    obtain ⟨n, first, h⟩ := bind_eq_ok_iff.1 h
    obtain ⟨more, others, h⟩ := bind_eq_ok_iff.1 h
    obtain rfl := Except.ok.inj h
    obtain ⟨small, rfl⟩ := symbol_eq_ok_iff.1 first
    obtain ⟨rfl, bounded⟩ := ih others
    exact ⟨rfl, List.forall_mem_cons.2 ⟨small, bounded⟩⟩

theorem exists_packed {a b c d : Nat} (ha : a < 64) (hb : b < 64) (hc : c < 64) (hd : d < 64) :
    ∃ x y z : UInt8, unpack a b c d = [x, y, z] ∧ x.toNat / 4 = a ∧
      x.toNat % 4 * 16 + y.toNat / 16 = b ∧ y.toNat % 16 * 4 + z.toNat / 64 = c ∧
      z.toNat % 64 = d := by
  refine ⟨_, _, _, rfl, ?_⟩
  simp only [UInt8.toNat_ofNat']
  omega

theorem encode_unpack {a b c d : Nat} (ha : a < 64) (hb : b < 64) (hc : c < 64) (hd : d < 64)
    (more : List UInt8) :
    encode (unpack a b c d ++ more) = [a, b, c, d].map symbolChar ++ encode more := by
  obtain ⟨x, y, z, unpacked, rfl, rfl, rfl, rfl⟩ := exists_packed ha hb hc hd
  rw [unpacked]
  rfl

theorem encode_of_unpackLast {position : Nat} {written bytes : List UInt8} {ns : List Nat}
    (small : ∀ n ∈ ns, n < 64) (enough : 2 ≤ ns.length) (few : ns.length ≤ 4)
    (h : unpackLast position written ns = .ok bytes) :
    encode bytes = ns.map symbolChar ++ List.replicate (4 - ns.length) '=' := by
  unfold unpackLast at h
  split at h
  · rename_i a b c d
    obtain rfl := Except.ok.inj h
    simp only [List.forall_mem_cons] at small
    obtain ⟨ha, hb, hc, hd, -⟩ := small
    have whole := encode_unpack ha hb hc hd []
    rwa [List.append_nil] at whole
  · rename_i a b c
    simp only [List.forall_mem_cons] at small
    obtain ⟨ha, hb, hc, -⟩ := small
    split at h
    · rename_i spare
      obtain rfl := Except.ok.inj h
      obtain ⟨x, y, z, unpacked, rfl, rfl, third, -⟩ :=
        exists_packed ha hb hc (show 0 < 64 by decide)
      have last : y.toNat % 16 * 4 = c := by
        have := z.toNat_lt
        omega
      subst last
      rw [unpacked]
      rfl
    · simp only [reduceCtorEq] at h
  · rename_i a b
    simp only [List.forall_mem_cons] at small
    obtain ⟨ha, hb, -⟩ := small
    split at h
    · rename_i spare
      obtain rfl := Except.ok.inj h
      obtain ⟨x, y, z, unpacked, rfl, second, -⟩ :=
        exists_packed ha hb (show 0 < 64 by decide) (show 0 < 64 by decide)
      have last : x.toNat % 4 * 16 = b := by
        have := y.toNat_lt
        omega
      subst last
      rw [unpacked]
      rfl
    · simp only [reduceCtorEq] at h
  · rename_i fourth third second
    -- Two to four symbols are one of the cases before.
    rcases ns with _ | ⟨a, _ | ⟨b, _ | ⟨c, _ | ⟨d, _ | ⟨e, more⟩⟩⟩⟩⟩
    · simp only [List.length_nil] at enough; omega
    · simp at enough
    · exact absurd rfl (second a b)
    · exact absurd rfl (third a b c)
    · exact absurd rfl (fourth a b c d)
    · simp only [List.length_cons] at few; omega

theorem eq_encode_of_decodeLast {position : Nat} {tail bytes : List UInt8}
    (h : decodeLast position tail = .ok bytes) : tail = (encode bytes).map Char.toUInt8 := by
  obtain ⟨values, read, h⟩ := bind_eq_ok_iff.1 h
  have parts : tail.takeWhile (· != pad) ++ tail.dropWhile (· != pad) = tail :=
    List.takeWhile_append_dropWhile
  generalize tail.takeWhile (· != pad) = written at parts read h
  generalize tail.dropWhile (· != pad) = padding at parts h
  obtain ⟨shown, small⟩ := of_symbols read
  have count : written.length = values.length := by rw [shown, List.length_map, List.length_map]
  split at h
  · simp only [reduceCtorEq] at h
  rename_i padded
  split at h
  · rename_i empty
    obtain rfl := Except.ok.inj h
    rw [empty]
    rfl
  split at h
  · simp only [reduceCtorEq] at h
  rename_i enough
  split at h
  · simp only [reduceCtorEq] at h
  rename_i whole
  have lengths : written.length + padding.length = 4 := by
    rw [← List.length_append, parts]
    omega
  have pads : padding = List.replicate (4 - values.length) pad := by
    rw [List.eq_replicate_iff]
    have alone : padding.any (· != pad) ≠ true := by
      intro other
      obtain ⟨byte, mem, _⟩ := List.any_eq_true.1 other
      exact padded ⟨List.ne_nil_of_mem mem, .inr other⟩
    refine ⟨by omega, fun byte mem => ?_⟩
    simpa using List.any_eq_false.1 (Bool.eq_false_iff.2 alone) byte mem
  rw [encode_of_unpackLast small (by omega) (by omega) h, ← parts, pads, List.map_append, ← shown,
    List.map_replicate]
  rfl

theorem eq_encode_of_decodeFrom {position : Nat} {symbols bytes : List UInt8}
    (h : decodeFrom position symbols = .ok bytes) : symbols = (encode bytes).map Char.toUInt8 := by
  induction position, symbols using decodeFrom.induct generalizing bytes with
  | case1 position a b c d e rest ih =>
    simp only [decodeFrom, bind_eq_ok_iff, symbol_eq_ok_iff, pure, Except.pure,
      Except.ok.injEq] at h
    obtain ⟨a, ⟨ha, rfl⟩, b, ⟨hb, rfl⟩, c, ⟨hc, rfl⟩, d, ⟨hd, rfl⟩, more, others, rfl⟩ := h
    rw [encode_unpack ha hb hc hd, List.map_append, ← ih others]
    rfl
  | case2 position tail short =>
    rw [decodeFrom] at h
    · exact eq_encode_of_decodeLast h
    · exact short

theorem decode_eq_ok_iff {symbols bytes : List UInt8} :
    decode symbols = .ok bytes ↔ symbols = (encode bytes).map Char.toUInt8 := by
  constructor
  · intro h
    unfold decode at h
    simp only at h
    split at h
    · simp only [reduceCtorEq] at h
    · exact eq_encode_of_decodeFrom h
  · rintro rfl
    exact decode_encode bytes

theorem parse_eq_ok_iff {text : String} {x : Base64Binary} :
    parse text = .ok x ↔ (text.toList.filter fun c => !Text.isAsciiBlank c) = encode x.bytes := by
  have plain := fun c mem => (isCompact_of_mem_encode x.bytes c mem).1
  have read : parse text = .ok x ↔ decode (compact text.toList) = .ok x.bytes := by
    obtain ⟨bytes⟩ := x
    unfold parse
    simp only
    split <;> rename_i decoded <;> simp only [decoded, Except.ok.injEq, mk.injEq, reduceCtorEq]
  rw [read, decode_eq_ok_iff, ← Text.bytes_of_ascii plain, compact]
  exact ⟨fun h => Text.bytes_injective h, congrArg Text.bytes⟩

theorem parse_insert_blanks {blanks : List Char} (h : ∀ c ∈ blanks, Text.isAsciiBlank c = true)
    (front back : List Char) (x : Base64Binary) :
    parse (String.ofList (front ++ blanks ++ back)) = .ok x ↔
      parse (String.ofList (front ++ back)) = .ok x := by
  have none_kept : (blanks.filter fun c => !Text.isAsciiBlank c) = [] := by
    rw [List.filter_eq_nil_iff]
    intro c mem
    rw [h c mem]
    decide
  rw [parse_eq_ok_iff, parse_eq_ok_iff, String.toList_ofList, String.toList_ofList,
    List.filter_append, List.filter_append, none_kept, List.append_nil, List.filter_append]

end Base64Binary

/-- Byte strings read back from their texts, and a text that reads as a byte string is the text of
that string but for the case of its digits or the blanks in it, which may stand anywhere. -/
theorem binary_read_back_from_canonical_text :
    (∀ x : HexBinary, HexBinary.parse x.text = .ok x) ∧
    (∀ x : Base64Binary, Base64Binary.parse x.text = .ok x) ∧
    (∀ (text : String) (x : HexBinary),
      HexBinary.parse text = .ok x ↔ String.ofList (Text.lower text.toList) = x.text) ∧
    (∀ (text : String) (x : Base64Binary), Base64Binary.parse text = .ok x ↔
      String.ofList (text.toList.filter fun c => !Text.isAsciiBlank c) = x.text) ∧
    ∀ blanks : List Char, (∀ c ∈ blanks, Text.isAsciiBlank c = true) →
      ∀ (front back : List Char) (x : Base64Binary),
        Base64Binary.parse (String.ofList (front ++ blanks ++ back)) = .ok x ↔
          Base64Binary.parse (String.ofList (front ++ back)) = .ok x := by
  refine ⟨HexBinary.parse_text, Base64Binary.parse_text, ?_, ?_, ?_⟩
  · intro text x
    rw [HexBinary.parse_eq_ok_iff, HexBinary.text, String.ofList_inj]
  · intro text x
    rw [Base64Binary.parse_eq_ok_iff, Base64Binary.text, String.ofList_inj]
  · intro blanks blank front back x
    exact Base64Binary.parse_insert_blanks blank front back x

theorem broken_line_read :
    let hello : Base64Binary := ⟨[104, 101, 108, 108, 111]⟩
    (∀ c ∈ ['\r', '\n', ' '], Text.isAsciiBlank c = true) ∧
      Base64Binary.parse "aGVsbG8=" = .ok hello ∧
      Base64Binary.parse (String.ofList ("aGVsb".toList ++ ['\r', '\n', ' '] ++ "G8=".toList)) =
        .ok hello := by
  intro hello
  have blank : ∀ c ∈ ['\r', '\n', ' '], Text.isAsciiBlank c = true :=
    List.all_eq_true.1 rfl
  have whole : Base64Binary.parse (String.ofList ("aGVsb".toList ++ "G8=".toList)) = .ok hello :=
    Base64Binary.parse_eq_ok_iff.2 (by decide +kernel)
  exact ⟨blank, whole,
    (binary_read_back_from_canonical_text.2.2.2.2 _ blank "aGVsb".toList _ hello).2 whole⟩

end PolicyValues
