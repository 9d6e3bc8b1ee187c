import PolicyValues.Network.Port
import PolicyValues.Proofs.Text.Digits

/-!
Port ranges are read from exactly five written forms, as the interval that the form stands for, and
are read back from their texts.
-/
namespace PolicyValues
open Text

structure WrittenPort where
  digits : List Char
  ne_nil : digits ≠ []
  proper : ∀ c ∈ digits, c.isDigit = true
  value_lt : Digits.value digits < 2 ^ 16

namespace WrittenPort

def value (p : WrittenPort) : Nat := Digits.value p.digits

def port (p : WrittenPort) : UInt16 := UInt16.ofNat p.value

@[simp] theorem toNat_port (p : WrittenPort) : p.port.toNat = p.value :=
  UInt16.toNat_ofNat_of_lt' p.value_lt

theorem dash_not_mem_digits (p : WrittenPort) : '-' ∉ p.digits := fun mem =>
  absurd (p.proper '-' mem) (by decide)

def ofPort (port : UInt16) : WrittenPort where
  digits := PortRange.portChars port
  ne_nil := Digits.ofNat_ne_nil _
  proper := Digits.isDigit_of_mem_ofNat
  value_lt := by
    rw [PortRange.portChars, Digits.value_ofNat]
    exact port.toNat_lt

@[simp] theorem port_ofPort (port : UInt16) : (ofPort port).port = port := by
  rw [← UInt16.toNat_inj, toNat_port]
  exact Digits.value_ofNat port.toNat

end WrittenPort

theorem PortRange.contains_iff {r : PortRange} {port : UInt16} :
    r.contains port = true ↔ (∀ low, r.low = some low → low.toNat ≤ port.toNat) ∧
      ∀ high, r.high = some high → port.toNat ≤ high.toNat := by
  simp only [contains, Bool.and_eq_true, Option.all_eq_true, decide_eq_true_iff,
    UInt16.le_iff_toNat_le]

inductive WrittenRange where
  | single (port : WrittenPort)
  | between (low high : WrittenPort) (ordered : low.value ≤ high.value)
  | atMost (high : WrittenPort)
  | atLeast (low : WrittenPort)
  | any

namespace WrittenRange

def chars : WrittenRange → List Char
  | single port => port.digits
  | between low high _ => low.digits ++ '-' :: high.digits
  | atMost high => '-' :: high.digits
  | atLeast low => low.digits ++ ['-']
  | any => ['-']

def Covers : WrittenRange → Nat → Prop
  | single port, n => n = port.value
  | between low high _, n => low.value ≤ n ∧ n ≤ high.value
  | atMost high, n => n ≤ high.value
  | atLeast low, n => low.value ≤ n
  | any, _ => True

def range : WrittenRange → PortRange
  | single port => .single port.port
  | between low high ordered =>
    { low := some low.port
      high := some high.port
      ordered := fun lo hlo hi hhi => by
        rw [Option.mem_def, Option.some.injEq] at hlo hhi
        rwa [← hlo, ← hhi, UInt16.le_iff_toNat_le, low.toNat_port, high.toNat_port] }
  | atMost high => .atMost high.port
  | atLeast low => .atLeast low.port
  | any => .any

theorem contains_range_iff (w : WrittenRange) (port : UInt16) :
    w.range.contains port = true ↔ w.Covers port.toNat := by
  rw [PortRange.contains_iff]
  cases w with
  | single own =>
    simp only [range, PortRange.single, Option.some.injEq, forall_eq', WrittenPort.toNat_port,
      Covers]
    omega
  | between low high _ =>
    simp only [range, Option.some.injEq, forall_eq', WrittenPort.toNat_port, Covers]
  | atMost high =>
    simp only [range, PortRange.atMost, Option.some.injEq, forall_eq', reduceCtorEq,
      false_implies, implies_true, true_and, WrittenPort.toNat_port, Covers]
  | atLeast low =>
    simp only [range, PortRange.atLeast, Option.some.injEq, forall_eq', reduceCtorEq,
      false_implies, implies_true, and_true, WrittenPort.toNat_port, Covers]
  | any =>
    simp only [range, PortRange.any, reduceCtorEq, false_implies, implies_true, and_self, Covers]

theorem exists_chars_eq (r : PortRange) : ∃ w : WrittenRange, w.chars = r.chars ∧ w.range = r := by
  obtain ⟨low, high, ordered⟩ := r
  cases low with
  | none =>
    cases high with
    | none => exact ⟨any, rfl, rfl⟩
    | some high =>
      exact ⟨atMost (.ofPort high), rfl, congrArg PortRange.atMost (WrittenPort.port_ofPort high)⟩
  | some low =>
    cases high with
    | none =>
      exact ⟨atLeast (.ofPort low), rfl, congrArg PortRange.atLeast (WrittenPort.port_ofPort low)⟩
    | some high =>
      by_cases eq : low = high
      · subst eq
        refine ⟨single (.ofPort low), ?_, congrArg PortRange.single (WrittenPort.port_ofPort low)⟩
        simp only [chars, PortRange.chars, if_true, WrittenPort.ofPort]
      · have le : (WrittenPort.ofPort low).value ≤ (WrittenPort.ofPort high).value := by
          have bounds := ordered low rfl high rfl
          rwa [← WrittenPort.port_ofPort low, ← WrittenPort.port_ofPort high,
            UInt16.le_iff_toNat_le, WrittenPort.toNat_port, WrittenPort.toNat_port] at bounds
        refine ⟨between (.ofPort low) (.ofPort high) le, ?_, ?_⟩
        · simp only [chars, PortRange.chars, if_neg eq, WrittenPort.ofPort]
        · simp only [range, WrittenPort.port_ofPort]

end WrittenRange

namespace PortRange

theorem readPort_eq_ok_iff {ds blamed : List Char} {port : UInt16} :
    readPort ds blamed = .ok port ↔ ∃ p : WrittenPort, p.digits = ds ∧ p.port = port := by
  constructor
  · intro h
    unfold readPort at h
    split at h
    · simp only [reduceCtorEq] at h
    rename_i proper
    split at h
    · simp only [reduceCtorEq] at h
    rename_i small
    rw [not_or, Bool.not_eq_false, List.all_eq_true] at proper
    exact ⟨⟨ds, proper.1, proper.2, Nat.not_le.1 small⟩, rfl, Except.ok.inj h⟩
  · rintro ⟨p, rfl, rfl⟩
    have all : p.digits.all Char.isDigit = true := List.all_eq_true.2 p.proper
    simp only [readPort, p.ne_nil, all, Bool.true_eq_false, or_self, if_false,
      Nat.not_le.2 p.value_lt]
    rfl

theorem readPort_digits (p : WrittenPort) (blamed : List Char) :
    readPort p.digits blamed = .ok p.port := readPort_eq_ok_iff.2 ⟨p, rfl, rfl⟩

theorem between_eq_ok_iff {low high : WrittenPort} {r : PortRange} :
    between low.port high.port = .ok r ↔
      ∃ ordered, (WrittenRange.between low high ordered).range = r := by
  have le_iff : low.port ≤ high.port ↔ low.value ≤ high.value := by
    rw [UInt16.le_iff_toNat_le, low.toNat_port, high.toNat_port]
  by_cases le : low.port ≤ high.port
  · have ordered := le_iff.1 le
    simp only [between, between?, le, dite_true, Except.ok.injEq, WrittenRange.range, ordered,
      exists_true_left]
  · simp only [between, between?, le, dite_false, reduceCtorEq, false_iff]
    rintro ⟨ordered, -⟩
    exact le (le_iff.2 ordered)

theorem read_chars_written (w : WrittenRange) : read w.chars = .ok w.range := by
  cases w with
  | single port =>
    simp only [WrittenRange.chars, read, splitFirst?_eq_none_iff.2 port.dash_not_mem_digits,
      readPort_digits, Except.map, WrittenRange.range]
  | between low high ordered =>
    have split := splitFirst?_append low.dash_not_mem_digits high.digits
    obtain ⟨d, ds, lows⟩ := List.exists_cons_of_ne_nil low.ne_nil
    obtain ⟨e, es, highs⟩ := List.exists_cons_of_ne_nil high.ne_nil
    have lo := readPort_digits low (low.digits ++ '-' :: high.digits)
    have hi := readPort_digits high high.digits
    rw [WrittenRange.chars, read, split]
    simp only [lows, highs] at lo hi ⊢
    simp only [lo, hi, bind, Except.bind]
    exact between_eq_ok_iff.2 ⟨ordered, rfl⟩
  | atMost high =>
    have split : splitFirst? '-' ('-' :: high.digits) = some ([], high.digits) := rfl
    obtain ⟨d, ds, digits⟩ := List.exists_cons_of_ne_nil high.ne_nil
    have port := readPort_digits high high.digits
    rw [WrittenRange.chars, read, split]
    simp only [digits] at port ⊢
    simp only [port, Except.map, WrittenRange.range]
  | atLeast low =>
    have split := splitFirst?_append low.dash_not_mem_digits []
    obtain ⟨d, ds, digits⟩ := List.exists_cons_of_ne_nil low.ne_nil
    have port := readPort_digits low (low.digits ++ ['-'])
    rw [WrittenRange.chars, read, split]
    simp only [digits] at port ⊢
    simp only [port, Except.map, WrittenRange.range]
  | any => rfl

theorem read_eq_ok_iff {cs : List Char} {r : PortRange} :
    read cs = .ok r ↔ ∃ w : WrittenRange, w.chars = cs ∧ w.range = r := by
  constructor
  · intro h
    unfold read at h
    split at h
    · obtain ⟨port, ported, rfl⟩ := map_eq_ok_iff.1 h
      obtain ⟨p, rfl, rfl⟩ := readPort_eq_ok_iff.1 ported
      exact ⟨.single p, rfl, rfl⟩
    · rename_i split
      exact ⟨.any, (append_of_splitFirst? split).symm, Except.ok.inj h⟩
    · rename_i high _ split
      obtain ⟨port, ported, rfl⟩ := map_eq_ok_iff.1 h
      obtain ⟨p, rfl, rfl⟩ := readPort_eq_ok_iff.1 ported
      exact ⟨.atMost p, (append_of_splitFirst? split).symm, rfl⟩
    · rename_i low _ split
      obtain ⟨port, ported, rfl⟩ := map_eq_ok_iff.1 h
      obtain ⟨p, rfl, rfl⟩ := readPort_eq_ok_iff.1 ported
      exact ⟨.atLeast p, (append_of_splitFirst? split).symm, rfl⟩
    · rename_i low high _ _ _ split
      obtain ⟨lo, lows, rest⟩ := bind_eq_ok_iff.1 h
      obtain ⟨hi, highs, ranged⟩ := bind_eq_ok_iff.1 rest
      obtain ⟨p, rfl, rfl⟩ := readPort_eq_ok_iff.1 lows
      obtain ⟨q, rfl, rfl⟩ := readPort_eq_ok_iff.1 highs
      obtain ⟨ordered, rfl⟩ := between_eq_ok_iff.1 ranged
      exact ⟨.between p q ordered, (append_of_splitFirst? split).symm, rfl⟩
  · rintro ⟨w, rfl, rfl⟩
    exact read_chars_written w

theorem read_chars (r : PortRange) : read r.chars = .ok r :=
  read_eq_ok_iff.2 (WrittenRange.exists_chars_eq r)

theorem parse_eq_ok_iff {text : String} {r : PortRange} :
    parse text = .ok r ↔ ∃ w : WrittenRange, w.chars = text.toList ∧ w.range = r := by
  rw [parse, mapError_eq_ok_iff, read_eq_ok_iff]

theorem parse_text (r : PortRange) : parse r.text = .ok r := by
  rw [parse, text, String.toList_ofList]
  exact mapError_eq_ok_iff.2 r.read_chars

end PortRange

end PolicyValues
