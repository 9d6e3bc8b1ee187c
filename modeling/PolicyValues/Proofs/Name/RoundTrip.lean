import PolicyValues.Name.Uri
import PolicyValues.Proofs.Name.Labels
import PolicyValues.Proofs.Network.Ports

/-!
Names that were read are read back from their texts. Host names are read from exactly the texts of
their grammar, whose host is judged without what follows it.
-/
namespace PolicyValues
open Text

theorem Uri.text_of_parse {text : String} {u : Uri} (h : parse text = .ok u) : u.text = text := by
  unfold parse at h
  split at h
  · rw [← Except.ok.inj h]
  · simp only [reduceCtorEq] at h

theorem Uri.parse_text {text : String} {u : Uri} (h : parse text = .ok u) :
    parse u.text = .ok u := by
  rw [text_of_parse h, h]

namespace HostName

/-- The text of a host alone, or with the text of ports behind a colon. -/
def WrittenHost.IsIn (w : WrittenHost) (text : String) : Option PortRange → Prop
  | none => text.toList = w.chars
  | some ports => ∃ portText : String, text.toList = w.chars ++ ':' :: portText.toList ∧
      PortRange.parse portText = .ok ports

theorem WrittenHost.colon_not_mem_chars (w : WrittenHost) : ':' ∉ w.chars :=
  fun mem => absurd (isBodyChar_of_mem_chars ':' mem) (by decide)

theorem portRange_parse_eq_ok_iff {cs : List Char} {ports : PortRange} :
    PortRange.parse (String.ofList cs) = .ok ports ↔ PortRange.read cs = .ok ports := by
  rw [PortRange.parse, mapError_eq_ok_iff, String.toList_ofList]

theorem parse_eq_ok_iff {text : String} {n : HostName} :
    parse text = .ok n ↔ ∃ w : WrittenHost, n.host = w.chars ∧ w.IsIn text n.ports := by
  rw [parse, mapError_eq_ok_iff]
  constructor
  · intro h
    unfold read at h
    split at h
    · obtain ⟨_, checked, made⟩ := bind_eq_ok_iff.1 h
      obtain rfl := Except.ok.inj made
      obtain ⟨w, same⟩ := checkHost_eq_ok_iff.1 checked
      exact ⟨w, same.symm, same.symm⟩
    · rename_i host portText split
      obtain ⟨ports, ranged, rest⟩ := bind_eq_ok_iff.1 h
      obtain ⟨_, checked, made⟩ := bind_eq_ok_iff.1 rest
      obtain rfl := Except.ok.inj made
      obtain ⟨w, rfl⟩ := checkHost_eq_ok_iff.1 checked
      refine ⟨w, rfl, String.ofList portText, ?_, portRange_parse_eq_ok_iff.2 ranged⟩
      rw [append_of_splitFirst? split, String.toList_ofList]
  · rintro ⟨w, same, within⟩
    obtain ⟨host, ports⟩ := n
    simp only at same within
    subst same
    cases ports with
    | none =>
      have same : text.toList = w.chars := within
      simp only [read, same, splitFirst?_eq_none_iff.2 w.colon_not_mem_chars, checkHost_chars, bind,
        Except.bind, pure, Except.pure]
    | some ports =>
      obtain ⟨portText, same, parsed⟩ := within
      rw [← portText.ofList_toList, portRange_parse_eq_ok_iff] at parsed
      simp only [read, same, splitFirst?_append w.colon_not_mem_chars, parsed, checkHost_chars,
        bind, Except.bind, pure, Except.pure]

theorem isIn_text {w : WrittenHost} {n : HostName} (same : n.host = w.chars) :
    w.IsIn n.text n.ports := by
  obtain ⟨host, ports⟩ := n
  simp only at same
  subst same
  cases ports with
  | none =>
    simp only [WrittenHost.IsIn, text, chars, PortRange.suffixChars, List.append_nil,
      String.toList_ofList]
  | some range =>
    refine ⟨String.ofList range.chars, ?_, portRange_parse_eq_ok_iff.2 range.read_chars⟩
    simp only [text, chars, PortRange.suffixChars, String.toList_ofList]

theorem parse_text {text : String} {n : HostName} (h : parse text = .ok n) :
    parse n.text = .ok n := by
  obtain ⟨w, same, -⟩ := parse_eq_ok_iff.1 h
  exact parse_eq_ok_iff.2 ⟨w, same, isIn_text same⟩

/-- A text is read exactly if it is a host by its grammar, alone or with ports behind a colon. The
host is kept as it is written, and the text of what was read is read as the same. -/
theorem parsed_iff_written_host (text : String) :
    ((∃ n, parse text = .ok n) ↔ ∃ (w : WrittenHost) (ports : Option PortRange),
      w.IsIn text ports) ∧
    ∀ n, (parse text = .ok n ↔ ∃ w : WrittenHost, n.host = w.chars ∧ w.IsIn text n.ports) ∧
      (parse text = .ok n → parse n.text = .ok n) := by
  refine ⟨⟨?_, ?_⟩, fun n => ⟨parse_eq_ok_iff, parse_text⟩⟩
  · rintro ⟨n, parsed⟩
    obtain ⟨w, _, within⟩ := parse_eq_ok_iff.1 parsed
    exact ⟨w, n.ports, within⟩
  · rintro ⟨w, ports, within⟩
    exact ⟨⟨w.chars, ports⟩, parse_eq_ok_iff.2 ⟨w, rfl, within⟩⟩

theorem wildcard_with_ports_read :
    let n : HostName := ⟨"*.4.host-1.Example.".toList, some (.atLeast 8080)⟩
    parse "*.4.host-1.Example.:8080-" = .ok n ∧ parse n.text = .ok n := by
  intro n
  obtain ⟨w, written⟩ : ∃ w : WrittenHost, w.chars = "*.4.host-1.Example.".toList :=
    ⟨⟨true, [⟨['4'], by decide, proper_of_all rfl, by decide, by decide⟩,
      ⟨['h', 'o', 's', 't', '-', '1'], by decide, proper_of_all rfl, by decide, by decide⟩,
      ⟨['E', 'x', 'a', 'm', 'p', 'l', 'e'], by decide, proper_of_all rfl, by decide, by decide⟩],
      row_cons_cons.2 (row_cons_cons.2 (row_singleton.2 Bool.false_ne_true)), true⟩,
      by decide +kernel⟩
  have whole : "*.4.host-1.Example.:8080-".toList = w.chars ++ ':' :: "8080-".toList := by
    rw [written]
    decide +kernel
  have ports : PortRange.parse "8080-" = .ok (.atLeast 8080) := by decide +kernel
  have reading := (parsed_iff_written_host "*.4.host-1.Example.:8080-").2 n
  have parsed := reading.1.2 ⟨w, written.symm, "8080-", whole, ports⟩
  exact ⟨parsed, reading.2 parsed⟩

end HostName

end PolicyValues
