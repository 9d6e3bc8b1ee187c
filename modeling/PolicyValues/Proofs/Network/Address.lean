import PolicyValues.Network.Address
import PolicyValues.Proofs.Network.Bare
import PolicyValues.Proofs.Network.Ports

/-!
An address with its mask is read from the front of a text, and what follows is read as its ports,
whatever it is. So addresses are read back from their texts.
-/
namespace PolicyValues
open Text

/-! ## What follows an address -/

def AtPorts (cs : List Char) : Prop := cs = [] ∨ ∃ portText, cs = ':' :: portText

theorem AtPorts.stops {cs : List Char} (h : AtPorts cs) {p : Char → Bool} (colon : p ':' = false) :
    Stops p cs := by
  rcases h with rfl | ⟨portText, rfl⟩
  · exact stops_nil p
  · exact stops_cons.2 colon

theorem AtPorts.ne_slash {cs : List Char} (h : AtPorts cs) (more : List Char) :
    cs ≠ '/' :: more := by
  rintro rfl
  exact absurd (stops_cons.1 (h.stops (p := (· == '/')) rfl)) (by decide)

theorem atPorts_suffixChars (ports : Option PortRange) : AtPorts (PortRange.suffixChars ports) := by
  cases ports with
  | none => exact .inl rfl
  | some range => exact .inr ⟨_, rfl⟩

theorem readPortSuffix_suffixChars (ports : Option PortRange) :
    readPortSuffix (PortRange.suffixChars ports) = .ok ports := by
  cases ports with
  | none => rfl
  | some range => simp only [PortRange.suffixChars, readPortSuffix, range.read_chars, Except.map]

theorem eq_nil_of_readPortSuffix {cs : List Char} (h : readPortSuffix cs = .ok none) : cs = [] := by
  unfold readPortSuffix at h
  split at h
  · rfl
  · obtain ⟨range, -, same⟩ := map_eq_ok_iff.1 h
    exact nomatch same
  · simp only [reduceCtorEq] at h

namespace IPv4Address

theorem readBare_eq_ok_iff {cs blamed : List Char} {x : IPv4} :
    readBare cs blamed = .ok x ↔ IPv4.parse? cs = some x := by
  unfold readBare
  split
  · rename_i y parsed
    rw [parsed, Except.ok.injEq, Option.some.injEq]
  · rename_i failed
    simp only [failed, reduceCtorEq]

/-- A text of an address and its mask, which ends before the ports. -/
inductive Names : List Char → IPv4 → Option IPv4 → Prop where
  | bare {cs : List Char} {x : IPv4} (plain : ∀ c ∈ cs, (c != '/' && c != ':') = true)
    (parsed : IPv4.parse? cs = some x) : Names cs x none
  | masked {cs maskText : List Char} {x mask : IPv4}
    (plain : ∀ c ∈ cs, (c != '/' && c != ':') = true) (parsed : IPv4.parse? cs = some x)
    (maskPlain : ∀ c ∈ maskText, (c != ':') = true)
    (maskParsed : IPv4.parse? maskText = some mask) :
    Names (cs ++ '/' :: maskText) x (some mask)

theorem Names.read_append {cs rest : List Char} {x : IPv4} {mask : Option IPv4}
    (names : Names cs x mask) (atPorts : AtPorts rest) :
    read (cs ++ rest) = (readPortSuffix rest).map (⟨x, mask, ·⟩) := by
  cases names with
  | bare plain parsed =>
    have stops : Stops (fun c => c != '/' && c != ':') rest := atPorts.stops rfl
    simp only [read, takeWhile_append_of_stops plain stops, dropWhile_append_of_stops plain stops,
      readBare_eq_ok_iff.2 parsed, bind, Except.bind]
    -- The first character behind the address says that there is no mask.
    split
    · exact absurd rfl (atPorts.ne_slash _)
    · cases readPortSuffix rest <;> rfl
  | @masked cs maskText _ _ plain parsed maskPlain maskParsed =>
    have slash : Stops (fun c => c != '/' && c != ':') ('/' :: (maskText ++ rest)) :=
      stops_cons.2 rfl
    have stops : Stops (· != ':') rest := atPorts.stops rfl
    simp only [read, List.append_assoc, List.cons_append, takeWhile_append_of_stops plain slash,
      dropWhile_append_of_stops plain slash, readBare_eq_ok_iff.2 parsed,
      takeWhile_append_of_stops maskPlain stops, dropWhile_append_of_stops maskPlain stops,
      readBare_eq_ok_iff.2 maskParsed, bind, Except.bind]
    cases readPortSuffix rest <;> rfl

theorem exists_names_of_read {cs : List Char} {x : IPv4Address} (h : read cs = .ok x) :
    ∃ front rest, cs = front ++ rest ∧ Names front x.address x.mask ∧
      readPortSuffix rest = .ok x.ports := by
  obtain ⟨address, bare, behind⟩ := bind_eq_ok_iff.1 h
  have parsed := readBare_eq_ok_iff.1 bare
  have plain := List.all_eq_true.1
    (List.all_takeWhile (p := fun c => c != '/' && c != ':') (l := cs))
  have whole := List.takeWhile_append_dropWhile (p := fun c => c != '/' && c != ':') (l := cs)
  split at behind
  · rename_i masked slash
    obtain ⟨mask, maskBare, ported⟩ := bind_eq_ok_iff.1 behind
    obtain ⟨ports, suffix, made⟩ := bind_eq_ok_iff.1 ported
    obtain rfl := Except.ok.inj made
    refine ⟨_, _, ?_, .masked plain parsed (List.all_eq_true.1 List.all_takeWhile)
      (readBare_eq_ok_iff.1 maskBare), suffix⟩
    rw [List.append_assoc, List.cons_append, List.takeWhile_append_dropWhile, ← slash, whole]
  · obtain ⟨ports, suffix, made⟩ := bind_eq_ok_iff.1 behind
    obtain rfl := Except.ok.inj made
    exact ⟨_, _, whole.symm, .bare plain parsed, suffix⟩

theorem names_chars (x : IPv4) (mask : Option IPv4) : Names (x.chars ++ maskChars mask) x mask := by
  have plain (x : IPv4) : ∀ c ∈ x.chars, c ≠ '/' ∧ c ≠ ':' := by
    intro c hc
    rcases IPv4.mem_chars c hc with digit | rfl
    · exact ⟨fun h => absurd (h ▸ digit) (by decide), fun h => absurd (h ▸ digit) (by decide)⟩
    · decide
  have plainAddress : ∀ c ∈ x.chars, (c != '/' && c != ':') = true := fun c hc =>
    Bool.and_eq_true_iff.2 ⟨bne_iff_ne.2 (plain x c hc).1, bne_iff_ne.2 (plain x c hc).2⟩
  cases mask with
  | none =>
    rw [maskChars, List.append_nil]
    exact .bare plainAddress x.parse?_chars
  | some mask =>
    exact .masked plainAddress x.parse?_chars (fun c hc => bne_iff_ne.2 (plain mask c hc).2)
      mask.parse?_chars

theorem read_chars (x : IPv4Address) : read x.chars = .ok x := by
  rw [chars, (names_chars x.address x.mask).read_append (atPorts_suffixChars x.ports),
    readPortSuffix_suffixChars, Except.map]

theorem parse_text (x : IPv4Address) : parse x.text = .ok x := by
  rw [parse, text, String.toList_ofList]
  exact mapError_eq_ok_iff.2 x.read_chars

end IPv4Address

namespace IPv6Address

def Brackets (cs : List Char) (x : IPv6) : Prop :=
  ∀ rest, readBracketed (cs ++ rest) = .ok (x, rest)

theorem brackets_of_parse? {inner : List Char} {x : IPv6} (closed : ']' ∉ inner)
    (parsed : IPv6.parse? inner = some x) : Brackets ('[' :: inner ++ [']']) x := by
  intro rest
  simp only [List.cons_append, List.append_assoc, List.nil_append, readBracketed,
    splitFirst?_append closed, parsed]

theorem exists_brackets_of_read {cs rest : List Char} {x : IPv6}
    (h : readBracketed cs = .ok (x, rest)) : ∃ front, cs = front ++ rest ∧ Brackets front x := by
  unfold readBracketed at h
  split at h
  · split at h
    · simp only [reduceCtorEq] at h
    rename_i inner behind split
    split at h
    · rename_i y parsed
      obtain ⟨rfl, rfl⟩ := Prod.mk.inj (Except.ok.inj h)
      refine ⟨_, ?_, brackets_of_parse? (not_mem_of_splitFirst? split) parsed⟩
      rw [append_of_splitFirst? split, List.append_assoc, List.singleton_append, List.cons_append]
    · simp only [reduceCtorEq] at h
  · simp only [reduceCtorEq] at h

inductive Names : List Char → IPv6 → Option IPv6 → Prop where
  | bare {cs : List Char} {x : IPv6} (brackets : Brackets cs x) : Names cs x none
  | masked {cs maskText : List Char} {x mask : IPv6} (brackets : Brackets cs x)
    (maskBrackets : Brackets maskText mask) : Names (cs ++ '/' :: maskText) x (some mask)

theorem Names.read_append {cs rest : List Char} {x : IPv6} {mask : Option IPv6}
    (names : Names cs x mask) (atPorts : AtPorts rest) :
    read (cs ++ rest) = (readPortSuffix rest).map (⟨x, mask, ·⟩) := by
  cases names with
  | bare brackets =>
    simp only [read, brackets rest, bind, Except.bind]
    -- The first character behind the address says that there is no mask.
    split
    · exact absurd rfl (atPorts.ne_slash _)
    · cases readPortSuffix rest <;> rfl
  | @masked cs maskText _ _ brackets maskBrackets =>
    simp only [read, List.append_assoc, List.cons_append, brackets ('/' :: (maskText ++ rest)),
      maskBrackets rest, bind, Except.bind]
    cases readPortSuffix rest <;> rfl

theorem exists_names_of_read {cs : List Char} {x : IPv6Address} (h : read cs = .ok x) :
    ∃ front rest, cs = front ++ rest ∧ Names front x.address x.mask ∧
      readPortSuffix rest = .ok x.ports := by
  obtain ⟨⟨address, behind⟩, bracketed, more⟩ := bind_eq_ok_iff.1 h
  obtain ⟨front, rfl, brackets⟩ := exists_brackets_of_read bracketed
  simp only at more
  split at more
  · obtain ⟨⟨mask, rest⟩, maskBracketed, ported⟩ := bind_eq_ok_iff.1 more
    obtain ⟨maskText, rfl, maskBrackets⟩ := exists_brackets_of_read maskBracketed
    obtain ⟨ports, suffix, made⟩ := bind_eq_ok_iff.1 ported
    obtain rfl := Except.ok.inj made
    refine ⟨_, rest, ?_, .masked brackets maskBrackets, suffix⟩
    rw [List.append_assoc, List.cons_append]
  · obtain ⟨ports, suffix, made⟩ := bind_eq_ok_iff.1 more
    obtain rfl := Except.ok.inj made
    exact ⟨front, behind, rfl, .bare brackets, suffix⟩

theorem names_chars (x : IPv6) (mask : Option IPv6) :
    Names (bracketed x ++ maskChars mask) x mask := by
  have brackets (x : IPv6) : Brackets (bracketed x) x :=
    brackets_of_parse? x.bracket_not_mem_chars x.parse?_chars
  cases mask with
  | none =>
    rw [maskChars, List.append_nil]
    exact .bare (brackets x)
  | some mask => exact .masked (brackets x) (brackets mask)

theorem read_chars (x : IPv6Address) : read x.chars = .ok x := by
  rw [chars, (names_chars x.address x.mask).read_append (atPorts_suffixChars x.ports),
    readPortSuffix_suffixChars, Except.map]

theorem parse_text (x : IPv6Address) : parse x.text = .ok x := by
  rw [parse, text, String.toList_ofList]
  exact mapError_eq_ok_iff.2 x.read_chars

end IPv6Address

theorem IpAddress.parse_text (x : IpAddress) : parse x.text = .ok x := by
  cases x with
  | v4 x =>
    have plain : x.text.toList.head? ≠ some '[' := by
      intro h
      rw [IPv4Address.text, String.toList_ofList, IPv4Address.chars, IPv4.chars] at h
      obtain ⟨d, ds, digits⟩ := List.exists_cons_of_ne_nil (Digits.ofNat_ne_nil x.address.a.toNat)
      have mem : d ∈ IPv4.octetChars x.address.a := by
        rw [IPv4.octetChars, digits]
        exact List.mem_cons_self
      have first := IPv4.isDigit_of_mem_octetChars d mem
      simp only [IPv4.octetChars, digits, List.cons_append, List.head?_cons, Option.some.injEq] at h
      rw [h] at first
      exact absurd first (by decide)
    simp only [parse, text, plain, if_false, x.parse_text, Except.map]
  | v6 x =>
    have bracket : x.text.toList.head? = some '[' := by
      rw [IPv6Address.text, String.toList_ofList]
      rfl
    simp only [parse, text, bracket, if_true, x.parse_text, Except.map]

end PolicyValues
