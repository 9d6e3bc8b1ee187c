import PolicyValues.Registry
import PolicyValues.Proofs.Name.UriPieces
import PolicyValues.Proofs.Value.RoundTrip

/-!
Texts of values hold nothing that trimming would take, strings and doubles apart. So a registry
reads them as they are, whether it drops blanks or not.
-/
namespace PolicyValues
open Registry (isCollapsible)

def Unspaced (cs : List Char) : Prop := ∀ c ∈ cs, isCollapsible c = false

theorem all_eq_true_iff_unspaced {cs : List Char} :
    cs.all (fun c => !isCollapsible c) = true ↔ Unspaced cs := by
  simp only [List.all_eq_true, Bool.not_eq_true', Unspaced]

instance (cs : List Char) : Decidable (Unspaced cs) := decidable_of_iff _ all_eq_true_iff_unspaced

@[simp] theorem unspaced_nil : Unspaced [] := fun _ h => absurd h List.not_mem_nil

@[simp] theorem unspaced_cons {c : Char} {cs : List Char} :
    Unspaced (c :: cs) ↔ isCollapsible c = false ∧ Unspaced cs := List.forall_mem_cons

@[simp] theorem unspaced_append {as bs : List Char} :
    Unspaced (as ++ bs) ↔ Unspaced as ∧ Unspaced bs := List.forall_mem_append

theorem isCollapsible_of {p : Char → Bool} {c : Char} (h : p c = true)
    (blanks : [' ', '\t', '\n', '\r'].any p = false) : isCollapsible c = false := by
  rw [Bool.eq_false_iff]
  intro blank
  have mem_blanks : c ∈ [' ', '\t', '\n', '\r'] := by
    simpa [isCollapsible, or_assoc] using blank
  exact Bool.eq_false_iff.1 blanks (List.any_eq_true.2 ⟨c, mem_blanks, h⟩)

theorem unspaced_of_forall {p : Char → Bool} {cs : List Char} (h : ∀ c ∈ cs, p c = true)
    (blanks : [' ', '\t', '\n', '\r'].any p = false) : Unspaced cs :=
  fun c mem => isCollapsible_of (h c mem) blanks

@[simp] theorem unspaced_ofNat (n : Nat) : Unspaced (Digits.ofNat n) :=
  unspaced_of_forall Digits.isDigit_of_mem_ofNat (by decide)

@[simp] theorem unspaced_padded (width n : Nat) : Unspaced (Digits.padded width n) :=
  unspaced_of_forall Digits.isDigit_of_mem_padded (by decide)

theorem unspaced_ofInt (n : Int) : Unspaced (Digits.ofInt n) := by
  cases n with
  | ofNat n => exact unspaced_ofNat n
  | negSucc n => exact unspaced_cons.2 ⟨by decide, unspaced_ofNat (n + 1)⟩

theorem unspaced_dateChars (date : CivilDate) : Unspaced (DateTime.dateChars date) := by
  unfold DateTime.dateChars yearChars
  split <;> simp [isCollapsible]

theorem unspaced_timeChars (t : TimeOfDay) : Unspaced t.chars := by
  unfold TimeOfDay.chars
  split <;> simp [isCollapsible]

theorem unspaced_zoneChars (zone : Option Zone) : Unspaced (DateTime.zoneChars zone) := by
  cases zone with
  | none => exact unspaced_nil
  | some zone =>
    unfold DateTime.zoneChars Zone.chars
    simp only
    split
    · simp [isCollapsible]
    · split <;> simp [isCollapsible]

theorem DateTime.unspaced_chars (d : DateTime) : Unspaced d.chars := by
  unfold chars wallChars
  simp [unspaced_dateChars, unspaced_timeChars, unspaced_zoneChars, isCollapsible]

theorem Date.unspaced_chars (d : Date) : Unspaced d.chars := by
  unfold chars
  rw [plainChars_eq]
  simp [unspaced_dateChars, unspaced_zoneChars]

theorem Time.unspaced_chars (t : Time) : Unspaced t.chars := by
  unfold chars plainChars
  simp [unspaced_timeChars, unspaced_zoneChars]

namespace Duration

theorem unspaced_componentChars (n : UInt64) {designator : Char}
    (letter : isCollapsible designator = false) : Unspaced (componentChars n designator) := by
  unfold componentChars
  split <;> simp [letter]

theorem unspaced_decimalChars (d : Decimal) : Unspaced d.chars := by
  unfold Decimal.chars
  split <;> split <;> simp [isCollapsible]

theorem unspaced_timeChars (d : Duration) : Unspaced d.timeChars := by
  unfold timeChars
  split
  · split <;> simp [unspaced_decimalChars, unspaced_componentChars, isCollapsible]
  · exact unspaced_nil

theorem unspaced_chars (d : Duration) : Unspaced d.chars := by
  unfold chars
  split
  · simp [isCollapsible]
  · split <;> simp [unspaced_timeChars, unspaced_componentChars, isCollapsible]

theorem unspaced_text (d : Duration) : Unspaced d.text.toList := by
  rw [text, String.toList_ofList]
  exact d.unspaced_chars

end Duration

theorem DayTimeDuration.unspaced_text (d : DayTimeDuration) : Unspaced d.text.toList := by
  unfold text
  split <;> exact Duration.unspaced_text _

theorem Uri.unspaced_of_isPiece {piece : List Char} (h : IsPiece piece) : Unspaced piece := by
  rcases isPiece_iff.1 h with ⟨c, allowed, rfl⟩ | ⟨high, low, first, second, rfl⟩
  · exact unspaced_cons.2 ⟨isCollapsible_of allowed (by decide), unspaced_nil⟩
  · simp only [unspaced_cons]
    exact ⟨by decide, isCollapsible_of first (by decide), isCollapsible_of second (by decide),
      unspaced_nil⟩

theorem Uri.unspaced_of_check {cs : List Char} (h : check cs = .ok ()) : Unspaced cs := by
  obtain ⟨row, rfl, each⟩ := Language.mem_kstar.1 (check_eq_ok_iff.1 h)
  intro c mem
  obtain ⟨piece, listed, mem⟩ := List.mem_flatten.1 mem
  exact unspaced_of_isPiece (each piece listed) c mem

theorem HexBinary.unspaced_chars (x : HexBinary) : Unspaced x.chars := by
  have digit : ∀ n < 16, isCollapsible (Text.hexDigit n) = false := by decide
  intro c mem
  obtain ⟨byte, _, shown⟩ := List.mem_flatMap.1 mem
  have small := byte.toNat_lt
  simp only [byteChars, List.mem_cons, List.not_mem_nil, or_false] at shown
  rcases shown with rfl | rfl
  · exact digit _ (by omega)
  · exact digit _ (by omega)

theorem Base64Binary.unspaced_encode (bytes : List UInt8) : Unspaced (encode bytes) := by
  refine unspaced_of_forall (p := fun c => !Text.isAsciiBlank c) ?_ (by decide)
  intro c mem
  rw [(isCompact_of_mem_encode bytes c mem).2]
  rfl

theorem Mailbox.Readable.unspaced_chars {m : Mailbox} (h : m.Readable) : Unspaced m.chars := by
  refine unspaced_of_forall (p := fun c => !isForbidden c) ?_ (by decide)
  intro c mem
  rw [h.not_forbidden c mem]
  rfl

theorem PortRange.unspaced_chars (r : PortRange) : Unspaced r.chars := by
  unfold chars portChars
  split
  · split <;> simp [isCollapsible]
  all_goals simp [isCollapsible]

theorem PortRange.unspaced_suffixChars (ports : Option PortRange) :
    Unspaced (suffixChars ports) := by
  cases ports with
  | none => exact unspaced_nil
  | some range => exact unspaced_cons.2 ⟨by decide, range.unspaced_chars⟩

theorem IPv4.unspaced_chars (x : IPv4) : Unspaced x.chars := by
  refine unspaced_of_forall (p := IPv6.isAddressChar) ?_ (by decide)
  intro c mem
  rcases mem_chars c mem with digit | rfl
  · simp only [IPv6.isAddressChar, IPv6.isHexDigit_of_isDigit c digit, Bool.true_or]
  · rfl

theorem IPv6.unspaced_chars (x : IPv6) : Unspaced x.chars :=
  unspaced_of_forall isAddressChar_of_mem_chars (by decide)

theorem IPv4Address.unspaced_chars (x : IPv4Address) : Unspaced x.chars := by
  have mask : Unspaced (maskChars x.mask) := by
    cases x.mask with
    | none => exact unspaced_nil
    | some m => exact unspaced_cons.2 ⟨by decide, m.unspaced_chars⟩
  simp only [chars, unspaced_append]
  exact ⟨⟨x.address.unspaced_chars, mask⟩, PortRange.unspaced_suffixChars x.ports⟩

theorem IPv6Address.unspaced_bracketed (x : IPv6) : Unspaced (bracketed x) := by
  simp only [bracketed, unspaced_cons, unspaced_append]
  exact ⟨⟨by decide, x.unspaced_chars⟩, by decide, unspaced_nil⟩

theorem IPv6Address.unspaced_chars (x : IPv6Address) : Unspaced x.chars := by
  have mask : Unspaced (maskChars x.mask) := by
    cases x.mask with
    | none => exact unspaced_nil
    | some m => exact unspaced_cons.2 ⟨by decide, unspaced_bracketed m⟩
  simp only [chars, unspaced_append]
  exact ⟨⟨unspaced_bracketed x.address, mask⟩, PortRange.unspaced_suffixChars x.ports⟩

theorem IpAddress.unspaced_text (x : IpAddress) : Unspaced x.text.toList := by
  cases x with
  | v4 x =>
    rw [text, IPv4Address.text, String.toList_ofList]
    exact x.unspaced_chars
  | v6 x =>
    rw [text, IPv6Address.text, String.toList_ofList]
    exact x.unspaced_chars

namespace HostName

theorem WrittenHost.unspaced_chars (w : WrittenHost) : Unspaced w.chars :=
  unspaced_of_forall isBodyChar_of_mem_chars (by decide)

theorem unspaced_of_parse {text : String} {n : HostName} (h : parse text = .ok n) :
    Unspaced n.chars := by
  obtain ⟨w, same, -⟩ := parse_eq_ok_iff.1 h
  exact unspaced_append.2 ⟨same ▸ w.unspaced_chars, PortRange.unspaced_suffixChars n.ports⟩

end HostName

theorem Value.Readable.unspaced_text {v : Value} (h : v.Readable) (named : v.dataType ≠ .string)
    (typed : v.dataType ≠ .double) : Unspaced v.text.toList := by
  obtain ⟨w, back, equal⟩ := h
  cases v with
  | string text => exact absurd rfl named
  | boolean b => cases b <;> decide
  | integer n =>
    rw [text, String.toList_ofList]
    exact unspaced_ofInt n.toInt
  | double x => exact absurd rfl typed
  | anyURI u =>
    obtain ⟨u', read, rfl⟩ := map_eq_ok_iff.1 back
    unfold Uri.parse at read
    split at read
    · rename_i checked
      exact Uri.unspaced_of_check checked
    · simp only [reduceCtorEq] at read
  | hexBinary x =>
    rw [text, HexBinary.text, String.toList_ofList]
    exact x.unspaced_chars
  | base64Binary x =>
    rw [text, Base64Binary.text, String.toList_ofList]
    exact Base64Binary.unspaced_encode x.bytes
  | date d =>
    rw [text, Date.text, String.toList_ofList]
    exact d.unspaced_chars
  | time t =>
    rw [text, Time.text, String.toList_ofList]
    exact t.unspaced_chars
  | dateTime d =>
    rw [text, DateTime.text, String.toList_ofList]
    exact d.unspaced_chars
  | dayTimeDuration d => exact d.unspaced_text
  | yearMonthDuration d => exact d.canonical.duration.unspaced_text
  | rfc822Name m =>
    obtain ⟨m', read, rfl⟩ := map_eq_ok_iff.1 back
    obtain rfl := rfc822Name.inj equal
    rw [text, Mailbox.text, String.toList_ofList]
    exact (Mailbox.readable_of_read (mapError_eq_ok_iff.1 read)).unspaced_chars
  | dnsName n =>
    obtain ⟨n', read, rfl⟩ := map_eq_ok_iff.1 back
    obtain rfl := dnsName.inj equal
    rw [text, HostName.text, String.toList_ofList]
    exact HostName.unspaced_of_parse read
  | ipAddress a => exact a.unspaced_text

end PolicyValues
