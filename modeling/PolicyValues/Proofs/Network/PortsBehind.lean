import PolicyValues.Proofs.Name.RoundTrip
import PolicyValues.Proofs.Network.Address
import PolicyValues.Proofs.Text.Viable

/-!
Port ranges mean the same by themselves and behind an address or a host. A fault in them keeps its
cause there, and its place is counted from the front of the whole text.
-/
namespace PolicyValues
open Text

def ValueError.behind (subject : Subject) (front portText : String) : ValueError → ValueError
  | malformed _ _ offset reason =>
    malformed subject (front ++ ":" ++ portText) (front.utf8ByteSize + 1 + offset) reason
  | fault => fault

namespace PortRange

inductive Fault (cs : List Char) : Stop → Prop where
  | missing {rest : List Char} (suffix : rest <:+ cs) :
    Fault cs (.malformed rest (.item "a port number"))
  | outOfRange (reason : RangeFault) : Fault cs (.outOfRange .portRange reason)

theorem fault_of_readPort {cs ds blamed : List Char} {stop : Stop} (suffix : blamed <:+ cs)
    (h : readPort ds blamed = .error stop) : Fault cs stop := by
  unfold readPort at h
  split at h
  · obtain rfl := Except.error.inj h
    exact .missing suffix
  split at h
  · obtain rfl := Except.error.inj h
    exact .outOfRange _
  · simp only [reduceCtorEq] at h

theorem fault_of_between {cs : List Char} {low high : UInt16} {stop : Stop}
    (h : between low high = .error stop) : Fault cs stop := by
  unfold between at h
  split at h
  · simp only [reduceCtorEq] at h
  · obtain rfl := Except.error.inj h
    exact .outOfRange _

theorem fault_of_read {cs : List Char} {stop : Stop} (h : read cs = .error stop) :
    Fault cs stop := by
  have whole : cs <:+ cs := List.suffix_refl cs
  have behind {low high : List Char} (split : splitFirst? '-' cs = some (low, high)) :
      high <:+ cs := by
    rw [append_of_splitFirst? split]
    exact ⟨low ++ ['-'], by rw [List.append_assoc, List.singleton_append]⟩
  unfold read at h
  split at h
  · exact fault_of_readPort whole (map_eq_error_iff.1 h)
  · simp only [reduceCtorEq] at h
  · rename_i split
    exact fault_of_readPort (behind split) (map_eq_error_iff.1 h)
  · exact fault_of_readPort whole (map_eq_error_iff.1 h)
  · rename_i split
    rcases bind_eq_error_iff.1 h with noLow | ⟨low, -, rest⟩
    · exact fault_of_readPort whole noLow
    · rcases bind_eq_error_iff.1 rest with noHigh | ⟨high, -, disordered⟩
      · exact fault_of_readPort (behind split) noHigh
      · exact fault_of_between disordered

theorem Fault.within_behind {portText : String} {stop : Stop}
    (fault : Fault portText.toList stop) (subject : Subject) (front : String) :
    stop.within subject (front ++ ":" ++ portText).toList =
      (stop.within .portRange portText.toList).behind subject front portText := by
  cases fault with
  | @missing rest suffix =>
    obtain ⟨before, whole⟩ := suffix
    have moved : offsetOf (front ++ ":" ++ portText).toList rest =
        front.utf8ByteSize + 1 + offsetOf portText.toList rest := by
      calc offsetOf (front ++ ":" ++ portText).toList rest
          = offsetOf (front.toList ++ ':' :: before ++ rest) rest := by
            rw [toList_around ':' rfl, ← whole, List.append_assoc, List.cons_append]
        _ = byteLength front.toList + byteLength (':' :: before) := by
            rw [offsetOf_append, byteLength_append]
        _ = front.utf8ByteSize + (1 + offsetOf (before ++ rest) rest) := by
            rw [byteLength_toList, offsetOf_append]
            rfl
        _ = front.utf8ByteSize + 1 + offsetOf portText.toList rest := by
            rw [whole, Nat.add_assoc]
    simp only [Stop.within, Malformation.blame, ValueError.behind, String.ofList_toList, moved]
  | outOfRange reason => rfl

end PortRange

/-! ## Texts before ports -/

/-- Behind a text without ports and a colon, ports are read as they are by themselves, and go to
what the text alone was read as. -/
def ReadsPortsBehind {α : Type} (parse : String → Except ValueError α) (subject : Subject)
    (ports : α → Option PortRange) (withPorts : α → PortRange → α) : Prop :=
  ∀ (front portText : String) (x : α), parse front = .ok x → ports x = none →
    parse (front ++ ":" ++ portText) =
      ((PortRange.parse portText).map (withPorts x)).mapError (·.behind subject front portText)

theorem readsPortsBehind_of_read {α : Type} {read : List Char → Except Stop α} {subject : Subject}
    {ports : α → Option PortRange} {withPorts : α → PortRange → α}
    (behind : ∀ front cs x, read front = .ok x → ports x = none →
      read (front ++ ':' :: cs) = (PortRange.read cs).map (withPorts x)) :
    ReadsPortsBehind (fun text => (read text.toList).mapError (·.within subject text.toList))
      subject ports withPorts := by
  intro front portText x parsed bare
  have answer := behind _ portText.toList x (mapError_eq_ok_iff.1 parsed) bare
  have whole : (front ++ ":" ++ portText).toList = front.toList ++ ':' :: portText.toList :=
    toList_around ':' rfl front portText
  rw [← whole] at answer
  simp only [answer, PortRange.parse]
  cases ranged : PortRange.read portText.toList with
  | ok range => rfl
  | error stop =>
    exact congrArg Except.error ((PortRange.fault_of_read ranged).within_behind subject front)

theorem map_readPortSuffix_colon {α : Type} (cs : List Char) (f : Option PortRange → α) :
    (readPortSuffix (':' :: cs)).map f = (PortRange.read cs).map fun range => f (some range) := by
  rw [readPortSuffix]
  cases PortRange.read cs <;> rfl

theorem IPv4Address.readsPortsBehind :
    ReadsPortsBehind parse .ipAddress ports fun x range => { x with ports := some range } := by
  refine readsPortsBehind_of_read fun front cs x read bare => ?_
  obtain ⟨named, rest, rfl, names, suffix⟩ := exists_names_of_read read
  rw [bare] at suffix
  obtain rfl := eq_nil_of_readPortSuffix suffix
  rw [List.append_nil, names.read_append (.inr ⟨cs, rfl⟩), map_readPortSuffix_colon]

theorem IPv6Address.readsPortsBehind :
    ReadsPortsBehind parse .ipAddress ports fun x range => { x with ports := some range } := by
  refine readsPortsBehind_of_read fun front cs x read bare => ?_
  obtain ⟨named, rest, rfl, names, suffix⟩ := exists_names_of_read read
  rw [bare] at suffix
  obtain rfl := eq_nil_of_readPortSuffix suffix
  rw [List.append_nil, names.read_append (.inr ⟨cs, rfl⟩), map_readPortSuffix_colon]

def IpAddress.withPorts : IpAddress → PortRange → IpAddress
  | v4 x, range => v4 { x with ports := some range }
  | v6 x, range => v6 { x with ports := some range }

theorem IpAddress.readsPortsBehind : ReadsPortsBehind parse .ipAddress ports withPorts := by
  intro front portText x parsed bare
  have family : (front ++ ":" ++ portText).toList.head? = some '[' ↔
      front.toList.head? = some '[' := by
    rw [toList_around ':' rfl]
    cases front.toList with
    | nil => simp
    | cons c cs => rfl
  unfold parse at parsed ⊢
  split at parsed <;> rename_i bracket
  · obtain ⟨y, read, rfl⟩ := map_eq_ok_iff.1 parsed
    rw [if_pos (family.2 bracket), IPv6Address.readsPortsBehind front portText y read bare]
    cases PortRange.parse portText <;> rfl
  · obtain ⟨y, read, rfl⟩ := map_eq_ok_iff.1 parsed
    rw [if_neg (mt family.1 bracket), IPv4Address.readsPortsBehind front portText y read bare]
    cases PortRange.parse portText <;> rfl

theorem HostName.readsPortsBehind :
    ReadsPortsBehind parse .dnsName ports fun n range => { n with ports := some range } := by
  refine readsPortsBehind_of_read fun front cs n read bare => ?_
  have parsed : parse (String.ofList front) = .ok n := by
    rwa [parse, mapError_eq_ok_iff, String.toList_ofList]
  obtain ⟨w, host, whole⟩ := parse_eq_ok_iff.1 parsed
  rw [bare, WrittenHost.IsIn, String.toList_ofList] at whole
  rw [HostName.read, whole, splitFirst?_append w.colon_not_mem_chars]
  simp only [checkHost_chars, host]
  cases PortRange.read cs <;> rfl

/-- Ports are read from exactly the written forms, as the numbers of the interval, and read back
from their texts. Behind an address of either family, with or without a mask, and behind a host they
are read alike. -/
theorem PortRange.read_alike_in_every_place :
    (∀ text range, parse text = .ok range ↔
      ∃ w : WrittenRange, w.chars = text.toList ∧ w.range = range) ∧
    (∀ w : WrittenRange, (∀ port, w.range.contains port = true ↔ w.Covers port.toNat) ∧
      parse w.range.text = .ok w.range) ∧
    ReadsPortsBehind IPv4Address.parse .ipAddress IPv4Address.ports
      (fun x range => { x with ports := some range }) ∧
    ReadsPortsBehind IPv6Address.parse .ipAddress IPv6Address.ports
      (fun x range => { x with ports := some range }) ∧
    ReadsPortsBehind IpAddress.parse .ipAddress IpAddress.ports IpAddress.withPorts ∧
    ReadsPortsBehind HostName.parse .dnsName HostName.ports
      (fun n range => { n with ports := some range }) :=
  ⟨fun _ _ => parse_eq_ok_iff, fun w => ⟨w.contains_range_iff, parse_text w.range⟩,
    IPv4Address.readsPortsBehind, IPv6Address.readsPortsBehind, IpAddress.readsPortsBehind,
    HostName.readsPortsBehind⟩

theorem PortRange.read_behind_masks_and_wildcard :
    (∃ range : PortRange, IPv4Address.parse ("10.0.0.0/255.0.0.0" ++ ":" ++ "0080-000443") =
        .ok ⟨⟨10, 0, 0, 0⟩, some ⟨255, 0, 0, 0⟩, some range⟩ ∧
      range.contains 443 = true ∧ range.contains 444 ≠ true) ∧
    IPv6Address.parse ("[::1]/[ffff::]" ++ ":" ++ "80-]") =
      .error (.malformed .ipAddress "[::1]/[ffff::]:80-]" 18 (.item "a port number")) ∧
    HostName.parse ("*.example.com." ++ ":" ++ "9-5") =
      .error (.outOfRange .portRange (.portOrder 9 5)) := by
  obtain ⟨forms, intervals, behindIPv4, behindIPv6, -, behindHost⟩ := read_alike_in_every_place
  let low : WrittenPort := ⟨"0080".toList, by decide, List.all_eq_true.1 rfl, by decide⟩
  let high : WrittenPort := ⟨"000443".toList, by decide, List.all_eq_true.1 rfl, by decide⟩
  let w : WrittenRange := .between low high (by decide)
  have ranged : parse "0080-000443" = .ok w.range := (forms _ _).2 ⟨w, by decide, rfl⟩
  have covers (port : UInt16) : w.range.contains port = true ↔ 80 ≤ port.toNat ∧ port.toNat ≤ 443 :=
    (intervals w).1 port
  refine ⟨⟨w.range, ?_, (covers 443).2 (by decide), mt (covers 444).1 (by decide)⟩, ?_, ?_⟩
  · rw [behindIPv4 _ _ ⟨⟨10, 0, 0, 0⟩, some ⟨255, 0, 0, 0⟩, none⟩ (by decide +kernel) rfl, ranged]
    rfl
  · let x : IPv6Address :=
      ⟨⟨[0, 0, 0, 0, 0, 0, 0, 1], rfl⟩, some ⟨[0xffff, 0, 0, 0, 0, 0, 0, 0], rfl⟩, none⟩
    have parsed : IPv6Address.parse "[::1]/[ffff::]" = .ok x := by decide +kernel
    have refused : parse "80-]" =
        .error (.malformed .portRange "80-]" 3 (.item "a port number")) := by
      decide +kernel
    rw [behindIPv6 _ _ x parsed rfl, refused]
    exact congrArg Except.error (by decide +kernel)
  · have refused : parse "9-5" = .error (.outOfRange .portRange (.portOrder 9 5)) := by
      decide +kernel
    rw [behindHost _ _ ⟨"*.example.com.".toList, none⟩ (by decide +kernel) rfl, refused]
    rfl

end PolicyValues
