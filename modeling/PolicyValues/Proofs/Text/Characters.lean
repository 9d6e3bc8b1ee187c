import PolicyValues.Text.Basic

/-!
Characters by their codes: lower case, digits in either case, and the bytes of a text. Different
texts have different bytes, and the bytes of an ASCII text are its characters.
-/
namespace PolicyValues.Text

theorem toNat_toLower (c : Char) :
    c.toLower.toNat = if 65 ≤ c.toNat ∧ c.toNat ≤ 90 then c.toNat + 32 else c.toNat := by
  have capital : c.val ≥ 'A'.val ∧ c.val ≤ 'Z'.val ↔ 65 ≤ c.toNat ∧ c.toNat ≤ 90 := by
    simp only [ge_iff_le, UInt32.le_iff_toNat_le]
    rfl
  split
  · rename_i upper
    have lowered : c.toLower.val = c.val + ('a'.val - 'A'.val) :=
      congrArg Char.val (dif_pos (capital.2 upper))
    have shifted : c.toLower.toNat = (c.toNat + 32) % 2 ^ 32 := congrArg UInt32.toNat lowered
    omega
  · rename_i kept
    exact congrArg Char.toNat (dif_neg (mt capital.1 kept))

theorem toLower_of_not_upper {c : Char} (h : ¬(65 ≤ c.toNat ∧ c.toNat ≤ 90)) : c.toLower = c := by
  rw [← Char.toNat_inj, toNat_toLower, if_neg h]

theorem toLower_cases (c : Char) :
    c.toLower = c ∨ (97 ≤ c.toLower.toNat ∧ c.toLower.toNat ≤ 122) := by
  by_cases upper : 65 ≤ c.toNat ∧ c.toNat ≤ 90
  · right
    rw [toNat_toLower, if_pos upper]
    omega
  · exact .inl (toLower_of_not_upper upper)

theorem toNat_lt_of_toLower {c : Char} (h : c.toLower.toNat < 128) : c.toNat < 128 := by
  rw [toNat_toLower] at h
  split at h <;> omega

@[simp] theorem lower_nil : lower [] = [] := rfl

@[simp] theorem lower_cons (c : Char) (cs : List Char) :
    lower (c :: cs) = c.toLower :: lower cs := rfl

theorem lower_append (as bs : List Char) : lower (as ++ bs) = lower as ++ lower bs :=
  List.map_append

theorem lower_lower (cs : List Char) : lower (lower cs) = lower cs := by
  -- What was lowered is no capital.
  have fixed (c : Char) : c.toLower.toLower = c.toLower := by
    rcases toLower_cases c with same | ⟨low, _⟩
    · rw [same, same]
    · exact toLower_of_not_upper (by omega)
  simp only [lower, List.map_map]
  exact List.map_congr_left fun c _ => fixed c

theorem toLower_eq_iff {c mark : Char} (h : mark.isAlpha = false) : c.toLower = mark ↔ c = mark := by
  have parts : (mark.isUpper || mark.isLower) = false := h
  rw [Bool.or_eq_false_iff] at parts
  have not_capital : ¬(65 ≤ mark.toNat ∧ mark.toNat ≤ 90) := of_decide_eq_false parts.1
  have not_small : ¬(97 ≤ mark.toNat ∧ mark.toNat ≤ 122) := fun small =>
    Bool.eq_false_iff.1 parts.2
      (Bool.and_eq_true_iff.2 ⟨decide_eq_true small.1, decide_eq_true small.2⟩)
  constructor
  · intro lowered
    rcases toLower_cases c with same | letter
    · rw [← same, lowered]
    · rw [lowered] at letter
      exact absurd letter not_small
  · rintro rfl
    exact toLower_of_not_upper not_capital

theorem mem_lower_iff {mark : Char} (h : mark.isAlpha = false) {cs : List Char} :
    mark ∈ lower cs ↔ mark ∈ cs := by
  simp only [lower, List.mem_map, toLower_eq_iff h, exists_eq_right]

theorem toNat_hexDigit {n : Nat} (h : n < 16) :
    (hexDigit n).toNat = if n < 10 then 48 + n else 87 + n := by
  revert n
  decide

theorem hexValue?_eq_some_iff {c : Char} {n : Nat} :
    hexValue? c = some n ↔ n < 16 ∧ c.toLower = hexDigit n := by
  have codes (small : n < 16) : c.toLower = hexDigit n ↔
      (if 65 ≤ c.toNat ∧ c.toNat ≤ 90 then c.toNat + 32 else c.toNat) =
        if n < 10 then 48 + n else 87 + n := by
    rw [← Char.toNat_inj, toNat_toLower, toNat_hexDigit small]
  rw [and_congr_right codes]
  simp only [hexValue?]
  grind

theorem utf8EncodeChar_of_ascii {c : Char} (h : c.toNat < 128) :
    String.utf8EncodeChar c = [c.toUInt8] := by
  have size : c.utf8Size = 1 := by
    rw [Char.utf8Size_eq_one_iff, UInt32.le_iff_toNat_le]
    exact Nat.le_of_lt_succ h
  exact String.utf8EncodeChar_eq_singleton size

theorem le_of_mem_utf8EncodeChar {c : Char} (h : 128 ≤ c.toNat) :
    ∀ byte ∈ String.utf8EncodeChar c, 128 ≤ byte.toNat := by
  have beyond : ¬ c.val.toNat ≤ 127 := Nat.not_le.2 h
  simp only [String.utf8EncodeChar, if_neg beyond]
  split
  · simp only [List.mem_cons, List.not_mem_nil, or_false, forall_eq_or_imp, forall_eq,
      UInt8.toNat_ofNat']
    omega
  · split
    · simp only [List.mem_cons, List.not_mem_nil, or_false, forall_eq_or_imp, forall_eq,
        UInt8.toNat_ofNat']
      omega
    · simp only [List.mem_cons, List.not_mem_nil, or_false, forall_eq_or_imp, forall_eq,
        UInt8.toNat_ofNat']
      omega

theorem bytes_of_ascii {cs : List Char} (h : ∀ c ∈ cs, c.toNat < 128) :
    bytes cs = cs.map Char.toUInt8 := by
  induction cs with
  | nil => rfl
  | cons c cs ih =>
    simp only [bytes, List.flatMap_cons, List.map_cons] at ih ⊢
    rw [utf8EncodeChar_of_ascii (h c List.mem_cons_self),
      ih fun d hd => h d (List.mem_cons_of_mem c hd), List.singleton_append]

theorem bytes_injective {as bs : List Char} (h : bytes as = bytes bs) : as = bs := by
  refine String.ofList_injective (String.toByteArray_inj.1 ?_)
  rw [String.toByteArray_ofList, String.toByteArray_ofList]
  exact congrArg List.toByteArray h

def charOf (byte : UInt8) : Char := Char.ofNat byte.toNat

theorem toNat_charOf (byte : UInt8) : (charOf byte).toNat = byte.toNat := by
  have := byte.toNat_lt
  rw [charOf, Char.ofNat, dif_pos (.inl (by omega))]
  rfl

theorem charOf_toUInt8 {c : Char} (h : c.toNat < 128) : charOf c.toUInt8 = c := by
  have code : c.toUInt8.toNat = c.toNat % 256 := rfl
  rw [← Char.toNat_inj, toNat_charOf]
  omega

theorem toUInt8_charOf (byte : UInt8) : (charOf byte).toUInt8 = byte := by
  have code : (charOf byte).toUInt8.toNat = (charOf byte).toNat % 256 := rfl
  have := byte.toNat_lt
  rw [← UInt8.toNat_inj, code, toNat_charOf]
  omega

theorem eq_map_of_bytes_ascii {cs : List Char} (h : ∀ byte ∈ bytes cs, byte.toNat < 128) :
    cs = (bytes cs).map charOf := by
  have plain : ∀ c ∈ (bytes cs).map charOf, c.toNat < 128 := by
    intro c shown
    obtain ⟨byte, mem, rfl⟩ := List.mem_map.1 shown
    rw [toNat_charOf]
    exact h byte mem
  refine bytes_injective ?_
  rw [bytes_of_ascii plain, List.map_map]
  exact ((List.map_congr_left fun byte _ => toUInt8_charOf byte).trans (List.map_id _)).symm

end PolicyValues.Text
