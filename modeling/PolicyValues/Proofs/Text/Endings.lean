import PolicyValues.Text.Ending
import PolicyValues.Proofs.Text.Characters

/-!
Ends of texts by their bytes and by their characters. No text begins with a byte from inside of a
character, so the bytes that end a text are those of the characters that end it.
-/
namespace PolicyValues.Text

theorem bytes_cons (c : Char) (cs : List Char) :
    bytes (c :: cs) = String.utf8EncodeChar c ++ bytes cs := List.flatMap_cons

theorem bytes_append (as bs : List Char) : bytes (as ++ bs) = bytes as ++ bytes bs :=
  List.flatMap_append

theorem length_bytes (cs : List Char) : (bytes cs).length = byteLength cs := by
  induction cs with
  | nil => rfl
  | cons c cs ih =>
    rw [bytes_cons, List.length_append, String.length_utf8EncodeChar, ih, byteLength]

/-! ## Case -/

theorem lowerByte_of_le {byte : UInt8} (h : 128 ≤ byte.toNat) : lowerByte byte = byte := by
  refine if_neg fun upper => ?_
  have small : byte.toNat ≤ 90 := UInt8.le_iff_toNat_le.1 upper.2
  omega

theorem lowerByte_toUInt8 {c : Char} (h : c.toNat < 128) :
    lowerByte c.toUInt8 = c.toLower.toUInt8 := by
  have code (d : Char) : d.toUInt8.toNat = d.toNat % 256 := rfl
  have capital : 65 ≤ c.toUInt8 ∧ c.toUInt8 ≤ 90 ↔ 65 ≤ c.toNat ∧ c.toNat ≤ 90 := by
    rw [UInt8.le_iff_toNat_le, UInt8.le_iff_toNat_le, code, Nat.mod_eq_of_lt (by omega)]
    rfl
  rw [lowerByte, ← UInt8.toNat_inj, code, toNat_toLower]
  by_cases upper : 65 ≤ c.toNat ∧ c.toNat ≤ 90
  · rw [if_pos (capital.2 upper), if_pos upper, UInt8.toNat_add, code]
    have step : (32 : UInt8).toNat = 32 := rfl
    omega
  · rw [if_neg (mt capital.1 upper), if_neg upper, code]

theorem utf8EncodeChar_toLower (c : Char) :
    String.utf8EncodeChar c.toLower = (String.utf8EncodeChar c).map lowerByte := by
  by_cases ascii : c.toNat < 128
  · have lowered : c.toLower.toNat < 128 := by
      rw [toNat_toLower]
      split <;> omega
    rw [utf8EncodeChar_of_ascii ascii, utf8EncodeChar_of_ascii lowered, List.map_singleton,
      lowerByte_toUInt8 ascii]
  · have kept : ∀ byte ∈ String.utf8EncodeChar c, lowerByte byte = byte := fun byte mem =>
      lowerByte_of_le (le_of_mem_utf8EncodeChar (Nat.not_lt.1 ascii) byte mem)
    rw [toLower_of_not_upper (by omega), List.map_congr_left kept, List.map_id']

theorem bytes_lower (cs : List Char) : bytes (lower cs) = (bytes cs).map lowerByte := by
  induction cs with
  | nil => rfl
  | cons c cs ih =>
    rw [lower_cons, bytes_cons, bytes_cons, List.map_append, ih, utf8EncodeChar_toLower]

theorem EqFold.byteLength_eq {as bs : List Char} (h : EqFold as bs) :
    byteLength as = byteLength bs := by
  have lowered (cs : List Char) : byteLength cs = (bytes (lower cs)).length := by
    rw [bytes_lower, List.length_map, length_bytes]
  rw [lowered as, lowered bs, h]

/-! ## Cuts between characters -/

theorem isUTF8FirstByte_of_bytes {cs : List Char} {byte : UInt8} {rest : List UInt8}
    (h : bytes cs = byte :: rest) : byte.IsUTF8FirstByte := by
  cases cs with
  | nil => exact absurd h.symm (List.cons_ne_nil _ _)
  | cons c cs =>
    obtain ⟨first, more, encoded⟩ := List.exists_cons_of_ne_nil (@String.utf8EncodeChar_ne_nil c)
    rw [bytes_cons, encoded, List.cons_append] at h
    obtain rfl := (List.cons.inj h).1
    have start := @UInt8.isUTF8FirstByte_getElem_zero_utf8EncodeChar c
    simpa only [encoded, List.getElem_cons_zero] using start

theorem eq_nil_of_isUTF8FirstByte {c : Char} {before after : List UInt8} {byte : UInt8}
    (h : String.utf8EncodeChar c = before ++ byte :: after) (first : byte.IsUTF8FirstByte) :
    before = [] := by
  have inside : before.length < (String.utf8EncodeChar c).length := by
    rw [h, List.length_append, List.length_cons]
    omega
  have stands : (String.utf8EncodeChar c)[before.length] = byte := by
    simp only [h, List.getElem_append_right (Nat.le_refl _), Nat.sub_self, List.getElem_cons_zero]
  rw [← stands, UInt8.isUTF8FirstByte_getElem_utf8EncodeChar] at first
  exact List.eq_nil_of_length_eq_zero first

theorem suffix_of_bytes_suffix {as bs : List Char} (h : bytes bs <:+ bytes as) : bs <:+ as := by
  induction as with
  | nil =>
    have empty : bytes bs = bytes [] := List.suffix_nil.1 h
    obtain rfl := bytes_injective empty
    exact List.suffix_rfl
  | cons a as ih =>
    obtain ⟨before, same⟩ := h
    rw [bytes_cons, List.append_eq_append_iff] at same
    -- The cut lies in the first character or behind it.
    rcases same with ⟨inside, encoded, rest⟩ | ⟨more, _, rest⟩
    · cases inside with
      | nil =>
        rw [List.nil_append] at rest
        exact (ih (rest ▸ List.suffix_rfl)).trans (List.suffix_cons a as)
      | cons byte inside =>
        have start := eq_nil_of_isUTF8FirstByte encoded (isUTF8FirstByte_of_bytes rest)
        rw [start, List.nil_append] at encoded
        rw [← encoded, ← bytes_cons] at rest
        obtain rfl := bytes_injective rest
        exact List.suffix_rfl
    · exact (ih ⟨more, rest.symm⟩).trans (List.suffix_cons a as)

/-! ## Ends up to case -/

theorem endsBelow_iff {cs ending : List Char} :
    EndsBelow cs ending ↔ ∃ front back, front ≠ [] ∧ cs = front ++ back ∧ EqFold back ending := by
  constructor
  · rintro ⟨longer, same⟩
    rw [List.map_drop, ← bytes_lower, ← bytes_lower] at same
    obtain ⟨before, split⟩ := suffix_of_bytes_suffix (same ▸ List.drop_suffix _ _)
    obtain ⟨front, back, rfl, -, lowered⟩ := List.map_eq_append_iff.1 split.symm
    refine ⟨front, back, ?_, rfl, lowered⟩
    rintro rfl
    have folded : EqFold back ending := lowered
    rw [List.nil_append, length_bytes, length_bytes, folded.byteLength_eq] at longer
    exact Nat.lt_irrefl _ longer
  · rintro ⟨front, back, some_front, rfl, same⟩
    have lengths : (bytes ending).length = (bytes back).length := by
      rw [length_bytes, length_bytes, same.byteLength_eq]
    have longer : 0 < (bytes front).length := by
      obtain ⟨c, front, rfl⟩ := List.exists_cons_of_ne_nil some_front
      rw [length_bytes, byteLength]
      exact Nat.add_pos_left c.utf8Size_pos _
    constructor
    · rw [bytes_append, List.length_append, lengths]
      omega
    · have folded : lower back = lower ending := same
      rw [bytes_append, List.length_append, lengths, Nat.add_sub_cancel, List.drop_left,
        ← bytes_lower, ← bytes_lower, folded]

theorem frontAt?_of_eqFold {front back ending : List Char} (same : EqFold back ending) :
    frontAt? (front ++ back) (byteLength (front ++ back) - byteLength ending) = some front := by
  rw [byteLength_append, same.byteLength_eq, Nat.add_sub_cancel, frontAt?_append]

end PolicyValues.Text
