import PolicyValues.Proofs.Network.Address

/-!
The standard form of bare addresses: octets in decimal, groups in hexadecimal, and the longest run
of zero groups left out, the first of them on a tie. There is one such text for each address.
-/
namespace PolicyValues

def dotted (octets : List Nat) : List Char :=
  List.intercalate ['.'] (octets.map fun octet => Nat.toDigits 10 octet)

theorem IPv4.chars_eq (x : IPv4) :
    x.chars = dotted [x.a.toNat, x.b.toNat, x.c.toNat, x.d.toNat] := by
  simp [chars, octetChars, Digits.ofNat, dotted, List.intercalate]

theorem IPv4.chars_ofGroups (high low : UInt16) :
    (ofGroups high low).chars =
      dotted [high.toNat / 256, high.toNat % 256, low.toNat / 256, low.toNat % 256] := by
  have upper (g : UInt16) : (g >>> 8).toUInt8.toNat = g.toNat / 256 := by
    have bound := g.toNat_lt
    simp only [UInt16.toNat_toUInt8, UInt16.toNat_shiftRight, UInt16.reduceToNat, Nat.reduceMod,
      Nat.shiftRight_eq_div_pow]
    omega
  have lower (g : UInt16) : g.toUInt8.toNat = g.toNat % 256 := UInt16.toNat_toUInt8 g
  rw [chars_eq]
  simp only [ofGroups, upper, lower]

namespace IPv6

def hexadecimal (gs : List UInt16) : List Char :=
  List.intercalate [':'] (gs.map fun g => Nat.toDigits 16 g.toNat)

theorem joined_eq_hexadecimal (gs : List UInt16) : joined gs = hexadecimal gs := by
  induction gs using joined.induct with
  | case1 => rfl
  | case2 g => simp [joined, hexadecimal, groupChars, List.intercalate]
  | case3 g gs more ih =>
    obtain ⟨h, gs, rfl⟩ := List.exists_cons_of_ne_nil more
    rw [joined, ih]
    · simp [hexadecimal, groupChars, List.intercalate]
    · exact more

/-- A run of zero groups. None is longer, and none as long begins before it. -/
structure FirstLongest (gs before : List UInt16) (zeros : Nat) (after : List UInt16) : Prop where
  split : gs = before ++ List.replicate zeros 0 ++ after
  longest : ∀ before' zeros' after', gs = before' ++ List.replicate zeros' 0 ++ after' →
    zeros' ≤ zeros
  first : ∀ before' after', gs = before' ++ List.replicate zeros 0 ++ after' →
    before.length ≤ before'.length

def Mapped (x : IPv6) : Prop := ∃ high low, x.groups = [0, 0, 0, 0, 0, 0xffff, high, low]

/-- The standard form: a mapped address keeps its octets, the others leave out two zero groups or
more where they can. -/
inductive Shown (x : IPv6) : List Char → Prop where
  | mapped {high low : UInt16} (groups : x.groups = [0, 0, 0, 0, 0, 0xffff, high, low]) :
    Shown x ("::ffff:".toList ++
      dotted [high.toNat / 256, high.toNat % 256, low.toNat / 256, low.toNat % 256])
  | compressed {before after : List UInt16} {zeros : Nat} (unmapped : ¬ x.Mapped) (two : 2 ≤ zeros)
    (run : FirstLongest x.groups before zeros after) :
    Shown x (hexadecimal before ++ "::".toList ++ hexadecimal after)
  | full (unmapped : ¬ x.Mapped)
    (scattered : ∀ before after, x.groups ≠ before ++ [0, 0] ++ after) :
    Shown x (hexadecimal x.groups)

/-! ## The run that is left out -/

theorem zeros_le_zeroRun (zeros : Nat) (after : List UInt16) :
    zeros ≤ zeroRun (List.replicate zeros 0 ++ after) := by
  have run : ∀ g ∈ List.replicate zeros (0 : UInt16), (g == 0) = true := fun g hg =>
    beq_iff_eq.2 (List.eq_of_mem_replicate hg)
  rw [zeroRun, List.takeWhile_append_of_pos run, List.length_append, List.length_replicate]
  exact Nat.le_add_right _ _

theorem le_longestZeros {gs before after : List UInt16} {zeros : Nat}
    (h : gs = before ++ List.replicate zeros 0 ++ after) (start : Nat) :
    zeros ≤ (longestZeros start gs).2 := by
  induction gs generalizing before start with
  | nil =>
    have empty := congrArg List.length h
    simp only [List.length_nil, List.length_append, List.length_replicate] at empty
    omega
  | cons g gs ih =>
    rw [longestZeros]
    cases before with
    | nil =>
      have here : zeros ≤ zeroRun (g :: gs) := by
        rw [h, List.nil_append]
        exact zeros_le_zeroRun zeros after
      split
      · exact here
      · omega
    | cons b before =>
      simp only [List.cons_append, List.cons.injEq] at h
      have later := ih h.2 (start + 1)
      split
      · exact Nat.le_trans later ‹_›
      · exact later

theorem longestZeros_le {gs before after : List UInt16} (start : Nat)
    (h : gs = before ++ List.replicate (longestZeros start gs).2 0 ++ after) :
    (longestZeros start gs).1 ≤ start + before.length := by
  induction gs generalizing before start with
  | nil => exact Nat.le_add_right _ _
  | cons g gs ih =>
    rw [longestZeros] at h ⊢
    split
    · exact Nat.le_add_right _ _
    · rename_i longer
      rw [if_neg longer] at h
      cases before with
      | nil =>
        -- A run that begins here would not have been passed over.
        have here := zeros_le_zeroRun (longestZeros (start + 1) gs).2 after
        rw [List.nil_append] at h
        rw [← h] at here
        exact absurd here longer
      | cons b before =>
        simp only [List.cons_append, List.cons.injEq] at h
        have later := ih (start + 1) h.2
        rw [List.length_cons]
        omega

theorem exists_firstLongest (gs : List UInt16) :
    ∃ before after, (longestZeros 0 gs).1 = before.length ∧
      FirstLongest gs before (longestZeros 0 gs).2 after := by
  obtain ⟨before, after, split, place⟩ := longestZeros_spec 0 gs
  rw [Nat.zero_add] at place
  refine ⟨before, after, place, split, fun _ _ _ h => le_longestZeros h 0, fun before' _ h => ?_⟩
  have first := longestZeros_le 0 h
  rwa [place, Nat.zero_add] at first

theorem FirstLongest.unique {gs before before' after after' : List UInt16} {zeros zeros' : Nat}
    (h : FirstLongest gs before zeros after) (h' : FirstLongest gs before' zeros' after') :
    before = before' ∧ zeros = zeros' ∧ after = after' := by
  obtain rfl : zeros = zeros' :=
    Nat.le_antisymm (h'.longest _ _ _ h.split) (h.longest _ _ _ h'.split)
  have place : before.length = before'.length :=
    Nat.le_antisymm (h.first _ _ h'.split) (h'.first _ _ h.split)
  have same := h.split.symm.trans h'.split
  rw [List.append_assoc, List.append_assoc] at same
  obtain ⟨rfl, behind⟩ := List.append_inj same place
  exact ⟨rfl, rfl, List.append_cancel_left behind⟩

theorem FirstLongest.not_scattered {gs before after : List UInt16} {zeros : Nat}
    (h : FirstLongest gs before zeros after) (two : 2 ≤ zeros) :
    ∃ before after, gs = before ++ [0, 0] ++ after := by
  obtain ⟨more, rfl⟩ := Nat.exists_eq_add_of_le' two
  have zeros : List.replicate (more + 2) (0 : UInt16) = [0, 0] ++ List.replicate more 0 := rfl
  refine ⟨before, List.replicate more 0 ++ after, ?_⟩
  rw [h.split, zeros]
  simp only [List.append_assoc]

/-! ## The text of an address -/

theorem chars_of_unmapped {x : IPv6} (unmapped : ¬ x.Mapped) :
    x.chars =
      if 1 < (longestZeros 0 x.groups).2 then
        joined (x.groups.take (longestZeros 0 x.groups).1) ++ ':' :: ':' ::
          joined (x.groups.drop ((longestZeros 0 x.groups).1 + (longestZeros 0 x.groups).2))
      else joined x.groups := by
  unfold chars
  split
  · rename_i high low groups
    exact absurd ⟨high, low, groups⟩ unmapped
  · rfl

theorem shown_chars (x : IPv6) : x.Shown x.chars := by
  by_cases mapped : x.Mapped
  · obtain ⟨high, low, groups⟩ := mapped
    have chars : x.chars = "::ffff:".toList ++ (IPv4.ofGroups high low).chars := by
      simp only [chars, groups]
    rw [chars, IPv4.chars_ofGroups]
    exact .mapped groups
  · obtain ⟨before, after, place, run⟩ := exists_firstLongest x.groups
    rw [chars_of_unmapped mapped]
    generalize longestZeros 0 x.groups = found at place run
    split
    · rename_i two
      have front : x.groups.take found.1 = before := by
        rw [place, run.split, List.append_assoc, List.take_left]
      have back : x.groups.drop (found.1 + found.2) = after := by
        rw [place, run.split]
        exact List.drop_left' (by rw [List.length_append, List.length_replicate])
      rw [front, back, joined_eq_hexadecimal, joined_eq_hexadecimal]
      have text := Shown.compressed mapped two run
      rwa [List.append_assoc] at text
    · rename_i short
      rw [joined_eq_hexadecimal]
      refine .full mapped fun before after split => short ?_
      exact run.longest before 2 after split

theorem Shown.unique {x : IPv6} {cs cs' : List Char} (h : x.Shown cs) (h' : x.Shown cs') :
    cs = cs' := by
  cases h with
  | mapped groups =>
    cases h' with
    | mapped groups' =>
      have same := groups.symm.trans groups'
      simp only [List.cons.injEq, and_true, true_and] at same
      rw [same.1, same.2]
    | compressed unmapped => exact absurd ⟨_, _, groups⟩ unmapped
    | full unmapped => exact absurd ⟨_, _, groups⟩ unmapped
  | compressed unmapped two run =>
    cases h' with
    | mapped groups => exact absurd ⟨_, _, groups⟩ unmapped
    | compressed _ _ run' =>
      obtain ⟨rfl, rfl, rfl⟩ := run.unique run'
      rfl
    | full _ scattered =>
      obtain ⟨before, after, split⟩ := run.not_scattered two
      exact absurd split (scattered before after)
  | full unmapped scattered =>
    cases h' with
    | mapped groups => exact absurd ⟨_, _, groups⟩ unmapped
    | compressed _ two run =>
      obtain ⟨before, after, split⟩ := run.not_scattered two
      exact absurd split (scattered before after)
    | full => rfl

theorem chars_eq_iff_shown {x : IPv6} {cs : List Char} : x.chars = cs ↔ x.Shown cs := by
  constructor
  · rintro rfl
    exact x.shown_chars
  · exact x.shown_chars.unique

example : IPv6.chars ⟨[1, 0, 0, 2, 0, 0, 3, 4], rfl⟩ = "1::2:0:0:3:4".toList := by decide

end IPv6

/-- Every address reads back from its text, where the family needs not be told. Without mask and
ports the text is the standard form of the address, in brackets for the longer family. -/
theorem IpAddress.read_back_from_standard_form :
    (∀ x : IPv4Address, IPv4Address.parse x.text = .ok x ∧ IpAddress.parse x.text = .ok (.v4 x)) ∧
    (∀ x : IPv6Address, IPv6Address.parse x.text = .ok x ∧ IpAddress.parse x.text = .ok (.v6 x)) ∧
    (∀ x : IpAddress, IpAddress.parse x.text = .ok x) ∧
    (∀ x : IPv4, (⟨x, none, none⟩ : IPv4Address).text =
      String.ofList (dotted [x.a.toNat, x.b.toNat, x.c.toNat, x.d.toNat])) ∧
    (∀ (x : IPv6) (cs : List Char),
      (⟨x, none, none⟩ : IPv6Address).text = String.ofList ('[' :: cs ++ [']']) ↔ x.Shown cs) := by
  refine ⟨fun x => ⟨x.parse_text, IpAddress.parse_text (.v4 x)⟩,
    fun x => ⟨x.parse_text, IpAddress.parse_text (.v6 x)⟩, IpAddress.parse_text, fun x => ?_,
    fun x cs => ?_⟩
  · simp only [IPv4Address.text, IPv4Address.chars, IPv4Address.maskChars, PortRange.suffixChars,
      List.append_nil, x.chars_eq]
  · rw [← IPv6.chars_eq_iff_shown]
    simp only [IPv6Address.text, IPv6Address.chars, IPv6Address.bracketed, IPv6Address.maskChars,
      PortRange.suffixChars, List.append_nil, String.ofList_inj, List.append_cancel_right_eq,
      List.cons.injEq, true_and]

end PolicyValues
