import PolicyValues.Proofs.Text.Viable

/-!
Places of a text, counted in bytes. What follows a place is a text exactly where a character begins
there or the text ends, and the bytes of one text within another stand between two such places.
-/
namespace PolicyValues.Text

/-- Behind its first `offset` bytes, a text goes on with the bytes of `s`. -/
def StandsAt (text : String) (offset : ℕ) (s : String) : Prop :=
  offset + s.utf8ByteSize ≤ text.utf8ByteSize ∧
    text.toByteArray.extract offset (offset + s.utf8ByteSize) = s.toByteArray

def IsPlace (text : String) (offset : ℕ) : Prop := (⟨offset⟩ : String.Pos.Raw).IsValid text

variable {text s : String} {cs front rest : List Char} {offset : ℕ}

theorem suffixAt?_eq_some_iff :
    suffixAt? cs offset = some rest ↔ ∃ front, cs = front ++ rest ∧ byteLength front = offset := by
  constructor
  · intro found
    induction cs generalizing offset with
    | nil =>
      cases offset with
      | zero => exact ⟨[], Option.some.inj found, rfl⟩
      | succ offset => simp only [suffixAt?, reduceCtorEq] at found
    | cons c cs ih =>
      cases offset with
      | zero => exact ⟨[], Option.some.inj found, rfl⟩
      | succ offset =>
        rw [suffixAt?] at found
        split at found
        · rename_i fits
          obtain ⟨front, rfl, size⟩ := ih found
          refine ⟨c :: front, rfl, ?_⟩
          rw [byteLength, size]
          omega
        · simp only [reduceCtorEq] at found
  · rintro ⟨front, rfl, rfl⟩
    exact suffixAt?_append front rest

theorem utf8ByteSize_ofList (cs : List Char) : (String.ofList cs).utf8ByteSize = byteLength cs := by
  rw [← byteLength_toList, String.toList_ofList]

theorem isPlace_iff : IsPlace text offset ↔ ∃ rest, suffixAt? text.toList offset = some rest := by
  simp only [IsPlace, String.Pos.Raw.isValid_iff_exists_append, suffixAt?_eq_some_iff]
  constructor
  · rintro ⟨front, back, rfl, size⟩
    refine ⟨back.toList, front.toList, String.toList_append, ?_⟩
    rw [byteLength_toList]
    exact (congrArg String.Pos.Raw.byteIdx size).symm
  · rintro ⟨rest, front, split, rfl⟩
    refine ⟨String.ofList front, String.ofList rest, ?_, ?_⟩
    · rw [← String.ofList_append, ← split, String.ofList_toList]
    · rw [← utf8ByteSize_ofList]
      rfl

theorem StandsAt.isPlace (stands : StandsAt text offset s) (some_byte : s ≠ "") :
    IsPlace text offset ∧ IsPlace text (offset + s.utf8ByteSize) := by
  obtain ⟨fits, same⟩ := stands
  have proper : (⟨offset⟩ : String.Pos.Raw) ≠ ⟨offset + s.utf8ByteSize⟩ := by
    rw [ne_eq, String.Pos.Raw.mk.injEq, Nat.left_eq_add, String.utf8ByteSize_eq_zero_iff]
    exact some_byte
  have cut := String.Pos.Raw.isValidUTF8_extract_iff (s := text) ⟨offset⟩
    ⟨offset + s.utf8ByteSize⟩ (Nat.le_add_right _ _) fits
  rw [same] at cut
  exact (cut.1 s.isValidUTF8).resolve_left proper

theorem standsAt_append (front s back : String) :
    StandsAt (front ++ (s ++ back)) front.utf8ByteSize s := by
  constructor
  · simp only [String.utf8ByteSize_append]
    omega
  · have part := ByteArray.extract_append_size_add (a := front.toByteArray)
      (b := (s ++ back).toByteArray) (i := 0) (j := s.utf8ByteSize)
    rw [Nat.add_zero, String.size_toByteArray] at part
    rw [String.toByteArray_append, part, String.toByteArray_append]
    exact ByteArray.extract_append_eq_left rfl

theorem StandsAt.exists_split (stands : StandsAt text offset s) (some_byte : s ≠ "") :
    ∃ front back : String, text = front ++ (s ++ back) ∧ front.utf8ByteSize = offset := by
  obtain ⟨first, last⟩ := stands.isPlace some_byte
  obtain ⟨fits, same⟩ := stands
  obtain ⟨front, tail, whole, size⟩ := String.Pos.Raw.isValid_iff_exists_append.1 first
  obtain ⟨head, back, whole', size'⟩ := String.Pos.Raw.isValid_iff_exists_append.1 last
  have size : offset = front.utf8ByteSize := congrArg String.Pos.Raw.byteIdx size
  have size' : offset + s.utf8ByteSize = head.utf8ByteSize := congrArg String.Pos.Raw.byteIdx size'
  refine ⟨front, back, String.toByteArray_inj.1 ?_, size.symm⟩
  have before : text.toByteArray.extract 0 offset = front.toByteArray := by
    rw [whole, String.toByteArray_append]
    exact ByteArray.extract_append_eq_left size
  have after : text.toByteArray.extract (offset + s.utf8ByteSize) text.utf8ByteSize =
      back.toByteArray := by
    rw [whole', String.toByteArray_append]
    exact ByteArray.extract_append_eq_right size' String.utf8ByteSize_append
  calc text.toByteArray
      = text.toByteArray.extract 0 text.utf8ByteSize := ByteArray.extract_zero_size.symm
    _ = front.toByteArray ++ (s.toByteArray ++ back.toByteArray) := by
        rw [ByteArray.extract_eq_extract_append_extract offset (Nat.zero_le _) (by omega),
          ByteArray.extract_eq_extract_append_extract (offset + s.utf8ByteSize) (by omega) fits,
          before, same, after]
    _ = (front ++ (s ++ back)).toByteArray := by
        rw [String.toByteArray_append, String.toByteArray_append]

theorem standsAt_iff (some_char : cs ≠ []) : StandsAt text offset (String.ofList cs) ↔
    ∃ rest, suffixAt? text.toList offset = some (cs ++ rest) := by
  constructor
  · intro stands
    have some_byte : String.ofList cs ≠ "" := by
      rwa [ne_eq, String.ofList_eq_empty_iff]
    obtain ⟨front, back, rfl, rfl⟩ := stands.exists_split some_byte
    refine ⟨back.toList, suffixAt?_eq_some_iff.2 ⟨front.toList, ?_, byteLength_toList front⟩⟩
    rw [String.toList_append, String.toList_append, String.toList_ofList]
  · rintro ⟨rest, found⟩
    obtain ⟨front, split, rfl⟩ := suffixAt?_eq_some_iff.1 found
    have whole : text = String.ofList front ++ (String.ofList cs ++ String.ofList rest) := by
      rw [← String.ofList_append, ← String.ofList_append, ← split, String.ofList_toList]
    rw [whole, ← utf8ByteSize_ofList]
    exact standsAt_append _ _ _

theorem standsAt_empty : StandsAt text offset "" ↔ offset ≤ text.utf8ByteSize := by
  simp only [StandsAt, String.utf8ByteSize_empty, Nat.add_zero, ByteArray.extract_same,
    String.toByteArray_empty, and_true]

theorem suffixAt?_read (found : suffixAt? text.toList offset = some (cs ++ rest)) :
    offsetOf text.toList rest = offset + byteLength cs ∧
      suffixAt? text.toList (offset + byteLength cs) = some rest := by
  obtain ⟨front, split, rfl⟩ := suffixAt?_eq_some_iff.1 found
  rw [split, ← List.append_assoc, ← byteLength_append]
  exact ⟨offsetOf_append _ _, suffixAt?_append _ _⟩

end PolicyValues.Text
