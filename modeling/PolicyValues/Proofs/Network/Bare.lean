import PolicyValues.Network.Bare
import PolicyValues.Proofs.Text.Digits

/-!
Bare addresses read back from their texts. Of an IPv6 address the groups before a `::` are read,
then the groups behind it; the run of zeros between them has the length that is missing from eight.
-/
namespace PolicyValues
open Text

namespace IPv4

theorem isDigit_of_mem_octetChars {n : UInt8} : ∀ c ∈ octetChars n, c.isDigit = true :=
  Digits.isDigit_of_mem_ofNat

theorem octetChars_plain (n : UInt8) :
    ¬ ((octetChars n).head? = some '0' ∧ 1 < (octetChars n).length) := by
  -- Octets are few enough to look at each.
  have table : ∀ k < 256, ¬ ((Digits.ofNat k).head? = some '0' ∧ 1 < (Digits.ofNat k).length) := by
    decide +kernel
  exact table n.toNat n.toNat_lt

theorem readOctet?_octetChars (n : UInt8) {rest : List Char} (hrest : Stops Char.isDigit rest) :
    readOctet? (octetChars n ++ rest) = some (n, rest) := by
  have bound := n.toNat_lt
  have ne_nil : octetChars n ≠ [] := Digits.ofNat_ne_nil _
  have short : (octetChars n).length ≤ 3 := (Digits.length_ofNat_le_iff (by decide)).2 (by omega)
  have value : Digits.value (octetChars n) = n.toNat := Digits.value_ofNat _
  simp only [readOctet?, Digits.span_append_of_stops isDigit_of_mem_octetChars hrest, ne_nil,
    Nat.not_lt.2 short, octetChars_plain, value, Nat.not_lt.2 (Nat.le_of_lt_succ bound), or_self,
    if_false, UInt8.ofNat_toNat]

theorem read?_chars (x : IPv4) {rest : List Char} (hrest : Stops Char.isDigit rest) :
    read? (x.chars ++ rest) = some (x, rest) := by
  have octet (n : UInt8) (after : List Char) :
      readOctet? (octetChars n ++ '.' :: after) = some (n, '.' :: after) :=
    readOctet?_octetChars n (stops_cons.2 rfl)
  simp only [read?, chars, List.append_assoc, List.cons_append, octet, readDot?,
    readOctet?_octetChars x.d hrest, bind, Option.bind, pure]

theorem parse?_chars (x : IPv4) : parse? x.chars = some x := by
  have all := x.read?_chars (stops_nil _)
  rw [List.append_nil] at all
  simp only [parse?, all]

theorem mem_chars {x : IPv4} : ∀ c ∈ x.chars, c.isDigit = true ∨ c = '.' := by
  intro c hc
  simp only [chars, List.mem_append, List.mem_cons, or_assoc] at hc
  rcases hc with hc | rfl | hc | rfl | hc | rfl | hc
  · exact .inl (isDigit_of_mem_octetChars c hc)
  · exact .inr rfl
  · exact .inl (isDigit_of_mem_octetChars c hc)
  · exact .inr rfl
  · exact .inl (isDigit_of_mem_octetChars c hc)
  · exact .inr rfl
  · exact .inl (isDigit_of_mem_octetChars c hc)

theorem read?_eq_none {cs : List Char} (h : (Digits.span cs).2.head? ≠ some '.') :
    read? cs = none := by
  cases octet : readOctet? cs with
  | none => simp only [read?, octet, bind, Option.bind]
  | some read =>
    have rest : read.2 = (Digits.span cs).2 := by
      simp only [readOctet?] at octet
      split at octet
      · simp only [reduceCtorEq] at octet
      · rw [← Option.some.inj octet]
    have dot : readDot? read.2 = none := by
      rw [rest]
      unfold readDot?
      split
      · simp_all
      · rfl
    simp only [read?, octet, dot, bind, Option.bind]

theorem groups_ofGroups (high low : UInt16) : (ofGroups high low).groups = [high, low] := by
  -- The two bytes of a group do not overlap, so joining them adds them.
  have joined (g : UInt16) : (g >>> 8).toUInt8.toUInt16 <<< 8 ||| g.toUInt8.toUInt16 = g := by
    have bound := g.toNat_lt
    have split := Nat.two_pow_add_eq_or_of_lt (Nat.mod_lt g.toNat (show 0 < 2 ^ 8 by decide))
      (g.toNat / 2 ^ 8)
    apply UInt16.toNat_inj.1
    simp only [UInt16.toNat_or, UInt16.toNat_shiftLeft, UInt8.toNat_toUInt16, UInt16.toNat_toUInt8,
      UInt16.toNat_shiftRight, UInt16.reduceToNat, Nat.reduceMod, Nat.shiftLeft_eq,
      Nat.shiftRight_eq_div_pow]
    rw [Nat.mod_eq_of_lt (show g.toNat / 2 ^ 8 < 2 ^ 8 by omega),
      Nat.mod_eq_of_lt (show g.toNat / 2 ^ 8 * 2 ^ 8 < 2 ^ 16 by omega), Nat.mul_comm, ← split]
    omega
  simp only [groups, ofGroups, joined]

end IPv4

namespace IPv6

theorem hexValue?_digitChar {d : Nat} (h : d < 16) : hexValue? (Nat.digitChar d) = some d := by
  revert d
  decide

def hexNumber (ds : List Char) : Nat := ds.foldl (fun n c => 16 * n + (hexValue? c).getD 0) 0

theorem hexNumber_toDigits (n : Nat) : hexNumber (Nat.toDigits 16 n) = n := by
  induction n using Nat.base_induction 16 (by decide) with
  | single d hd =>
    simp only [hexNumber, Nat.toDigits_of_lt_base hd, List.foldl_cons, List.foldl_nil,
      hexValue?_digitChar hd, Option.getD_some, Nat.mul_zero, Nat.zero_add]
  | digit m d hd hm ih =>
    simp only [hexNumber] at ih
    simp only [hexNumber, ← Nat.toDigits_append_toDigits (by decide : 1 < 16) hm hd,
      Nat.toDigits_of_lt_base hd, List.foldl_append, ih, List.foldl_cons, List.foldl_nil,
      hexValue?_digitChar hd, Option.getD_some]

theorem isHexDigit_of_mem_toDigits (n : Nat) : ∀ c ∈ Nat.toDigits 16 n, isHexDigit c = true := by
  have digit {d : Nat} (hd : d < 16) : ∀ c ∈ Nat.toDigits 16 d, isHexDigit c = true := by
    rw [Nat.toDigits_of_lt_base hd]
    simp only [List.mem_singleton, forall_eq, isHexDigit, hexValue?_digitChar hd,
      Option.isSome_some]
  induction n using Nat.base_induction 16 (by decide) with
  | single d hd => exact digit hd
  | digit m d hd hm ih =>
    rw [← Nat.toDigits_append_toDigits (by decide : 1 < 16) hm hd]
    intro c hc
    rcases List.mem_append.1 hc with hc | hc
    · exact ih c hc
    · exact digit hd c hc

theorem isHexDigit_of_mem_groupChars {g : UInt16} : ∀ c ∈ groupChars g, isHexDigit c = true :=
  isHexDigit_of_mem_toDigits g.toNat

theorem groupChars_ne_nil (g : UInt16) : groupChars g ≠ [] := Nat.toDigits_ne_nil

theorem readGroup?_groupChars (g : UInt16) {rest : List Char} (hrest : Stops isHexDigit rest) :
    readGroup? (groupChars g ++ rest) = some (g, rest) := by
  have short : (groupChars g).length ≤ 4 :=
    (Nat.length_toDigits_le_iff (by decide) (by decide)).2 g.toNat_lt
  have number : (groupChars g).foldl (fun n c => 16 * n + (hexValue? c).getD 0) 0 = g.toNat :=
    hexNumber_toDigits g.toNat
  simp only [readGroup?, takeWhile_append_of_stops isHexDigit_of_mem_groupChars hrest,
    dropWhile_append_of_stops isHexDigit_of_mem_groupChars hrest, groupChars_ne_nil,
    Nat.not_lt.2 short, or_self, if_false, number, UInt16.ofNat_toNat]

def EndsGroups (rest : List Char) : Prop := rest = [] ∨ ∃ more, rest = ':' :: ':' :: more

theorem EndsGroups.hex {rest : List Char} (h : EndsGroups rest) : Stops isHexDigit rest := by
  rcases h with rfl | ⟨more, rfl⟩
  · exact stops_nil _
  · exact stops_cons.2 rfl

theorem EndsGroups.point {rest : List Char} (h : EndsGroups rest) : rest.head? ≠ some '.' := by
  rcases h with rfl | ⟨more, rfl⟩
  · simp only [List.head?_nil, ne_eq, reduceCtorEq, not_false_eq_true]
  · simp only [List.head?_cons, ne_eq, Option.some.injEq, Char.reduceEq, not_false_eq_true]

theorem isHexDigit_of_isDigit (c : Char) (h : c.isDigit = true) : isHexDigit c = true := by
  simp only [Char.isDigit, Bool.and_eq_true, decide_eq_true_eq, UInt32.le_iff_toNat_le] at h
  have : 48 ≤ c.toNat ∧ c.toNat ≤ 57 := h
  simp only [isHexDigit, hexValue?, this, and_self, if_true, Option.isSome_some]

theorem read?_groupChars (g : UInt16) {rest : List Char} (hex : Stops isHexDigit rest)
    (point : rest.head? ≠ some '.') : IPv4.read? (groupChars g ++ rest) = none := by
  have no_point : '.' ∉ groupChars g := fun h =>
    absurd (isHexDigit_of_mem_groupChars '.' h) (by decide)
  -- Its digits can be those of an octet, but a point is neither in it nor behind it.
  exact IPv4.read?_eq_none
    (head?_dropWhile_append_ne no_point (hex.mono isHexDigit_of_isDigit) point)

def followed (gs : List UInt16) : List Char := gs.flatMap fun g => ':' :: groupChars g

theorem joined_cons (g : UInt16) (gs : List UInt16) :
    joined (g :: gs) = groupChars g ++ followed gs := by
  induction gs generalizing g with
  | nil => simp only [joined, followed, List.flatMap_nil, List.append_nil]
  | cons h gs ih => simp only [joined, ih h, followed, List.flatMap_cons, List.cons_append]

theorem followed_append_hex (gs : List UInt16) {rest : List Char} (h : EndsGroups rest) :
    Stops isHexDigit (followed gs ++ rest) := by
  cases gs with
  | nil => exact h.hex
  | cons g gs => exact stops_cons.2 rfl

theorem followed_append_point (gs : List UInt16) {rest : List Char} (h : EndsGroups rest) :
    (followed gs ++ rest).head? ≠ some '.' := by
  cases gs with
  | nil => exact h.point
  | cons g gs =>
    simp only [followed, List.flatMap_cons, List.cons_append, List.head?_cons, ne_eq,
      Option.some.injEq, Char.reduceEq, not_false_eq_true]

theorem readGroup?_of_stops {cs : List Char} (h : Stops isHexDigit cs) : readGroup? cs = none := by
  simp only [readGroup?, takeWhile_of_stops h, true_or, if_true]

theorem read?_of_stops {cs : List Char} (h : Stops Char.isDigit cs) : IPv4.read? cs = none := by
  simp only [IPv4.read?, IPv4.readOctet?, Digits.span, takeWhile_of_stops h, true_or, if_true, bind,
    Option.bind]

theorem readGroups_of_ends (limit : Nat) (first : Bool) {rest : List Char} (h : EndsGroups rest) :
    readGroups limit first rest = ⟨[], false, rest⟩ := by
  cases limit with
  | zero => rfl
  | succ limit =>
    rcases h with rfl | ⟨more, rfl⟩
    · cases first <;> simp [readGroups, read?_of_stops, readGroup?_of_stops]
    · cases first <;> simp [readGroups, read?_of_stops, readGroup?_of_stops, isHexDigit, hexValue?]

theorem readGroups_followed {limit : Nat} {gs : List UInt16} (fits : gs.length ≤ limit)
    {rest : List Char} (h : EndsGroups rest) :
    readGroups limit false (followed gs ++ rest) = ⟨gs, false, rest⟩ := by
  induction gs generalizing limit with
  | nil => exact readGroups_of_ends limit false h
  | cons g gs ih =>
    cases limit with
    | zero => exact absurd fits (Nat.not_succ_le_zero _)
    | succ limit =>
      have hex := followed_append_hex gs h
      -- The reader tries a dotted address in place of each group that it reads.
      have octet := read?_groupChars g hex (followed_append_point gs h)
      simp only [List.length_cons, Nat.add_le_add_iff_right] at fits
      simp only [followed, List.flatMap_cons, List.cons_append, List.append_assoc] at hex octet ⊢
      simp only [readGroups, octet, ite_self, readGroup?_groupChars g hex]
      have more := ih fits
      simp only [followed] at more
      rw [more]

theorem readGroups_joined {limit : Nat} {gs : List UInt16} (fits : gs.length ≤ limit)
    {rest : List Char} (h : EndsGroups rest) :
    readGroups limit true (joined gs ++ rest) = ⟨gs, false, rest⟩ := by
  cases gs with
  | nil => exact readGroups_of_ends limit true h
  | cons g gs =>
    cases limit with
    | zero => exact absurd fits (Nat.not_succ_le_zero _)
    | succ limit =>
      have hex := followed_append_hex gs h
      have octet := read?_groupChars g hex (followed_append_point gs h)
      simp only [List.length_cons, Nat.add_le_add_iff_right] at fits
      rw [joined_cons, List.append_assoc]
      simp only [readGroups, octet, ite_self, readGroup?_groupChars g hex,
        readGroups_followed fits h]

theorem longestZeros_spec (start : Nat) (gs : List UInt16) :
    ∃ before after, gs = before ++ List.replicate (longestZeros start gs).2 0 ++ after ∧
      (longestZeros start gs).1 = start + before.length := by
  induction gs generalizing start with
  | nil => exact ⟨[], [], rfl, rfl⟩
  | cons g gs ih =>
    unfold longestZeros
    simp only
    split
    -- The run that begins here is the longest.
    · have zeros : (g :: gs).takeWhile (· == 0) = List.replicate (zeroRun (g :: gs)) 0 := by
        refine List.eq_replicate_iff.2 ⟨rfl, fun b hb => ?_⟩
        exact beq_iff_eq.1 (List.all_eq_true.1 List.all_takeWhile b hb)
      refine ⟨[], (g :: gs).dropWhile (· == 0), ?_, rfl⟩
      rw [← zeros, List.nil_append, List.takeWhile_append_dropWhile]
    -- It begins later.
    · obtain ⟨before, after, split, place⟩ := ih (start + 1)
      refine ⟨g :: before, after, ?_, ?_⟩
      · conv => lhs; rw [split]
        simp only [List.cons_append]
      · rw [place, List.length_cons]
        omega

theorem ofGroups?_groups (x : IPv6) : ofGroups? x.groups = some x := by
  simp only [ofGroups?, x.length_eq, dite_true]

theorem parse?_around {before after : List UInt16} {zeros : Nat} (two : 2 ≤ zeros)
    (eight : before.length + zeros + after.length = 8) :
    parse? (joined before ++ ':' :: ':' :: joined after) =
      ofGroups? (before ++ List.replicate zeros 0 ++ after) := by
  have middle : EndsGroups (':' :: ':' :: joined after) := .inr ⟨_, rfl⟩
  have last : EndsGroups [] := .inl rfl
  have head := readGroups_joined (show before.length ≤ 8 by omega) middle
  have tail := readGroups_joined (show after.length ≤ 7 - before.length by omega) last
  rw [List.append_nil] at tail
  have fewer : before.length ≠ 8 := by omega
  have missing : 8 - before.length - after.length = zeros := by omega
  simp only [parse?, head, fewer, if_false, Bool.false_eq_true, tail, if_true, missing]

theorem parse?_joined {gs : List UInt16} (eight : gs.length = 8) :
    parse? (joined gs) = ofGroups? gs := by
  have last : EndsGroups [] := .inl rfl
  have head := readGroups_joined (Nat.le_of_eq eight) last
  rw [List.append_nil] at head
  simp only [parse?, head, eight, if_true]

theorem readGroups_mapped (x : IPv4) :
    readGroups 7 true (groupChars 0xffff ++ ':' :: x.chars) = ⟨0xffff :: x.groups, true, []⟩ := by
  have behind : Stops isHexDigit (':' :: x.chars) := stops_cons.2 rfl
  have group := readGroup?_groupChars 0xffff behind
  have octet := read?_groupChars 0xffff behind (by simp)
  have octets := x.read?_chars (stops_nil _)
  rw [List.append_nil] at octets
  simp [readGroups, octet, group, octets]

theorem parse?_mapped (x : IPv4) :
    parse? (':' :: ':' :: (groupChars 0xffff ++ ':' :: x.chars)) =
      ofGroups? (List.replicate 5 0 ++ 0xffff :: x.groups) := by
  have head := readGroups_of_ends 8 true (.inr ⟨groupChars 0xffff ++ ':' :: x.chars, rfl⟩)
  have length : (0xffff :: x.groups).length = 3 := rfl
  simp only [parse?, head, List.length_nil, Nat.reduceEqDiff, if_false, Bool.false_eq_true,
    Nat.sub_zero, readGroups_mapped, if_true, length, Nat.reduceSub, List.nil_append]

theorem parse?_chars (x : IPv6) : parse? x.chars = some x := by
  rw [← x.ofGroups?_groups]
  unfold chars
  split
  · rename_i high low mapped
    have split : "::ffff:".toList ++ (IPv4.ofGroups high low).chars =
        ':' :: ':' :: (groupChars 0xffff ++ ':' :: (IPv4.ofGroups high low).chars) := rfl
    rw [split, parse?_mapped, IPv4.groups_ofGroups, mapped]
    rfl
  -- Only that zeros stand in the run matters here, not that it is the longest.
  · obtain ⟨before, after, around, start⟩ := longestZeros_spec 0 x.groups
    have eight := x.length_eq
    simp only
    generalize longestZeros 0 x.groups = run at around start
    split
    · rename_i two
      rw [Nat.zero_add] at start
      have front : x.groups.take run.1 = before := by
        rw [start, around, List.append_assoc, List.take_left]
      have back : x.groups.drop (run.1 + run.2) = after := by
        rw [start, around]
        exact List.drop_left' (by simp)
      have length : before.length + run.2 + after.length = 8 := by
        rw [← eight, around]
        simp only [List.length_append, List.length_replicate]
      rw [front, back, parse?_around two length, ← around]
    · exact parse?_joined eight

def isAddressChar (c : Char) : Bool := isHexDigit c || c == ':' || c == '.'

theorem isAddressChar_of_mem_joined {gs : List UInt16} :
    ∀ c ∈ joined gs, isAddressChar c = true := by
  induction gs using joined.induct with
  | case1 => simp only [joined, List.not_mem_nil, false_implies, implies_true]
  | case2 g =>
    intro c hc
    simp only [isAddressChar, isHexDigit_of_mem_groupChars c hc, Bool.true_or]
  | case3 g gs _ ih =>
    intro c hc
    simp only [joined, List.mem_append, List.mem_cons] at hc
    rcases hc with hc | rfl | hc
    · simp only [isAddressChar, isHexDigit_of_mem_groupChars c hc, Bool.true_or]
    · rfl
    · exact ih c hc

theorem isAddressChar_of_mem_chars {x : IPv6} : ∀ c ∈ x.chars, isAddressChar c = true := by
  intro c hc
  unfold chars at hc
  split at hc
  · rename_i high low _
    rcases List.mem_append.1 hc with hc | hc
    · have front : "::ffff:".toList.all isAddressChar = true := by decide +kernel
      exact List.all_eq_true.1 front c hc
    · rcases IPv4.mem_chars c hc with digit | rfl
      · simp only [isAddressChar, isHexDigit_of_isDigit c digit, Bool.true_or]
      · rfl
  · simp only at hc
    split at hc
    · rcases List.mem_append.1 hc with hc | hc
      · exact isAddressChar_of_mem_joined c hc
      · simp only [List.mem_cons] at hc
        rcases hc with rfl | rfl | hc
        · rfl
        · rfl
        · exact isAddressChar_of_mem_joined c hc
    · exact isAddressChar_of_mem_joined c hc

theorem bracket_not_mem_chars (x : IPv6) : ']' ∉ x.chars := fun h =>
  absurd (isAddressChar_of_mem_chars ']' h) (by decide)

end IPv6

end PolicyValues
