import PolicyValues.Value.Reader
import PolicyValues.Proofs.Binary.RoundTrip
import PolicyValues.Proofs.Duration.CarriedText
import PolicyValues.Proofs.Name.Mailboxes
import PolicyValues.Proofs.Name.RoundTrip
import PolicyValues.Proofs.Network.Address
import PolicyValues.Proofs.Temporal.RoundTrip

/-!
Values that were read are read back from their texts as equal values, whatever the datatype apart
from doubles. Only durations come back in another form, the one with carried units.
-/
namespace PolicyValues
open Text

theorem readBoolean_boolText (b : Bool) : readBoolean (boolText b) = .ok b := by
  cases b <;> rfl

theorem readInteger_of_digits {cs ds : List Char} {negative : Bool} (some_digit : ds ≠ [])
    (digits : ∀ c ∈ ds, c.isDigit = true) (sign : Double.readSign cs = (negative, ds)) {n : Int64}
    (value : n.toInt = if negative then -(Digits.value ds : Int) else Digits.value ds) :
    readInteger (String.ofList cs) = .ok n := by
  have low := n.le_toInt
  have high := n.toInt_lt
  have span := Digits.span_append_of_stops digits (stops_nil _)
  obtain ⟨d, more, rfl⟩ := List.exists_cons_of_ne_nil some_digit
  rw [List.append_nil] at span
  rw [value] at low high
  simp only [readInteger, String.toList_ofList, sign, span, low, high, and_self, if_true]
  rw [← value, Int64.ofInt_toInt]

theorem readSign_of_digits {ds : List Char} (digits : ∀ c ∈ ds, c.isDigit = true) :
    Double.readSign ds = (false, ds) := by
  unfold Double.readSign
  split
  · exact absurd (digits '-' List.mem_cons_self) (by decide)
  · exact absurd (digits '+' List.mem_cons_self) (by decide)
  · rfl

theorem readInteger_text (n : Int64) :
    readInteger (String.ofList (Digits.ofInt n.toInt)) = .ok n := by
  cases value : n.toInt with
  | ofNat m =>
    refine readInteger_of_digits (Digits.ofNat_ne_nil m) Digits.isDigit_of_mem_ofNat
      (readSign_of_digits Digits.isDigit_of_mem_ofNat) ?_
    rw [value, Digits.value_ofNat]
    rfl
  | negSucc m =>
    have sign : Double.readSign ('-' :: Digits.ofNat (m + 1)) = (true, Digits.ofNat (m + 1)) := rfl
    refine readInteger_of_digits (Digits.ofNat_ne_nil _) Digits.isDigit_of_mem_ofNat sign ?_
    rw [value, Digits.value_ofNat]
    rfl

namespace Value

def Readable (v : Value) : Prop := ∃ w, v.dataType.read v.text = .ok w ∧ v.Equal w

theorem equal_dayTimeDuration {a b : DayTimeDuration} :
    (dayTimeDuration a).Equal (dayTimeDuration b) ↔ a.Equal b := Iff.rfl

theorem equal_yearMonthDuration {a b : YearMonthDuration} :
    (yearMonthDuration a).Equal (yearMonthDuration b) ↔ a.Equal b := Iff.rfl

theorem Equal.refl (v : Value) : v.Equal v := by
  cases v with
  | dayTimeDuration d => exact equal_dayTimeDuration.2 rfl
  | yearMonthDuration d => exact equal_yearMonthDuration.2 rfl
  | _ => rfl

theorem readable_of_eq {v : Value} (h : v.dataType.read v.text = .ok v) : v.Readable :=
  ⟨v, h, .refl v⟩

theorem readable_boolean (b : Bool) : (boolean b).Readable := by
  apply readable_of_eq
  simp only [dataType, text, DataType.read, readBoolean_boolText, Except.map]

theorem readable_integer (n : Int64) : (integer n).Readable := by
  apply readable_of_eq
  simp only [dataType, text, DataType.read, readInteger_text, Except.map]

theorem readable_hexBinary (x : HexBinary) : (hexBinary x).Readable := by
  apply readable_of_eq
  simp only [dataType, text, DataType.read, x.parse_text, Except.map]

theorem readable_base64Binary (x : Base64Binary) : (base64Binary x).Readable := by
  apply readable_of_eq
  simp only [dataType, text, DataType.read, x.parse_text, Except.map]

theorem readable_dayTimeDuration {d : DayTimeDuration} (h : d.Readable) :
    (dayTimeDuration d).Readable := by
  obtain ⟨e, back, equal⟩ := h.consistent.parse_text
  refine ⟨dayTimeDuration e, ?_, equal_dayTimeDuration.2 equal⟩
  simp only [dataType, text, DataType.read, back, Except.map]

theorem readable_yearMonthDuration {d : YearMonthDuration} (h : d.Readable) :
    (yearMonthDuration d).Readable := by
  refine ⟨yearMonthDuration d.canonical, ?_, equal_yearMonthDuration.2 rfl⟩
  simp only [dataType, text, DataType.read, h.parse_text, Except.map]

end Value

theorem DataType.dataType_of_read {t : DataType} {text : String} {v : Value}
    (h : t.read text = .ok v) :
    v.dataType = t := by
  cases t with
  | string => rw [← Except.ok.inj h]; rfl
  | _ =>
    obtain ⟨a, _, rfl⟩ := map_eq_ok_iff.1 h
    rfl

theorem DataType.readable_of_read {t : DataType} {text : String} {v : Value} (typed : t ≠ .double)
    (h : t.read text = .ok v) : v.Readable := by
  cases t with
  | string =>
    rw [← Except.ok.inj h]
    exact Value.readable_of_eq rfl
  | boolean =>
    obtain ⟨b, _, rfl⟩ := map_eq_ok_iff.1 h
    exact Value.readable_boolean b
  | integer =>
    obtain ⟨n, _, rfl⟩ := map_eq_ok_iff.1 h
    exact Value.readable_integer n
  | double => exact absurd rfl typed
  | anyURI =>
    obtain ⟨u, read, rfl⟩ := map_eq_ok_iff.1 h
    apply Value.readable_of_eq
    simp only [Value.dataType, Value.text, DataType.read, Uri.parse_text read, Except.map]
  | hexBinary =>
    obtain ⟨x, _, rfl⟩ := map_eq_ok_iff.1 h
    exact Value.readable_hexBinary x
  | base64Binary =>
    obtain ⟨x, _, rfl⟩ := map_eq_ok_iff.1 h
    exact Value.readable_base64Binary x
  | date =>
    obtain ⟨d, _, rfl⟩ := map_eq_ok_iff.1 h
    apply Value.readable_of_eq
    simp only [Value.dataType, Value.text, DataType.read, d.parse_text, Except.map]
  | time =>
    obtain ⟨t, _, rfl⟩ := map_eq_ok_iff.1 h
    apply Value.readable_of_eq
    simp only [Value.dataType, Value.text, DataType.read, t.parse_text, Except.map]
  | dateTime =>
    obtain ⟨d, _, rfl⟩ := map_eq_ok_iff.1 h
    apply Value.readable_of_eq
    simp only [Value.dataType, Value.text, DataType.read, d.parse_text, Except.map]
  | dayTimeDuration =>
    obtain ⟨d, read, rfl⟩ := map_eq_ok_iff.1 h
    exact Value.readable_dayTimeDuration (DayTimeDuration.readable_of_parse read)
  | yearMonthDuration =>
    obtain ⟨d, read, rfl⟩ := map_eq_ok_iff.1 h
    exact Value.readable_yearMonthDuration (YearMonthDuration.readable_of_parse read)
  | rfc822Name =>
    obtain ⟨m, read, rfl⟩ := map_eq_ok_iff.1 h
    apply Value.readable_of_eq
    simp only [Value.dataType, Value.text, DataType.read, Mailbox.parse_text read, Except.map]
  | dnsName =>
    obtain ⟨n, read, rfl⟩ := map_eq_ok_iff.1 h
    apply Value.readable_of_eq
    simp only [Value.dataType, Value.text, DataType.read, HostName.parse_text read, Except.map]
  | ipAddress =>
    obtain ⟨a, _, rfl⟩ := map_eq_ok_iff.1 h
    apply Value.readable_of_eq
    simp only [Value.dataType, Value.text, DataType.read, a.parse_text, Except.map]

end PolicyValues
