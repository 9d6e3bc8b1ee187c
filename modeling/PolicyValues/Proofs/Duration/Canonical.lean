import PolicyValues.Proofs.Duration.Grammar

/-!
The grammar of durations is unambiguous: a text is written in one way at most. The text of a
duration leaves out whatever could be left out of it, so no other duration has the same text.
-/
namespace PolicyValues.Duration
open Text

/-! ## One way to write a text -/

section
variable {number number' : Component → Option Digits.Written}

theorem designator_of_unsigned?_flatMap (admissible : Admissible number)
    {components : List Component} {rest more : List Char} (ends : Digits.unsigned? rest = none)
    {n : Digits.Written} {letter : Char}
    (h : Digits.unsigned? (components.flatMap (partChars number) ++ rest) =
      some (n, letter :: more)) : ∃ c ∈ components, letter = c.designator := by
  induction components with
  | nil =>
    rw [List.flatMap_nil, List.nil_append, ends] at h
    simp only [reduceCtorEq] at h
  | cons component components ih =>
    rw [List.flatMap_cons, List.append_assoc] at h
    cases found : number component with
    | none =>
      rw [partChars_of_none found, List.nil_append] at h
      obtain ⟨c, mem, designator⟩ := ih h
      exact ⟨c, List.mem_cons_of_mem _ mem, designator⟩
    | some m =>
      rw [unsigned?_part (admissible component m found).1 found] at h
      simp only [Option.some.injEq, Prod.mk.injEq, List.cons.injEq] at h
      exact ⟨component, List.mem_cons_self, h.2.1.symm⟩

theorem flatMap_partChars_injective (admissible : Admissible number)
    (admissible' : Admissible number') {components : List Component}
    (distinct : components.Pairwise fun a b => a.designator ≠ b.designator)
    {rest rest' : List Char} (ends : Digits.unsigned? rest = none)
    (ends' : Digits.unsigned? rest' = none)
    (h : components.flatMap (partChars number) ++ rest =
      components.flatMap (partChars number') ++ rest') :
    (∀ c ∈ components, number c = number' c) ∧ rest = rest' := by
  induction components with
  | nil => exact ⟨fun _ mem => absurd mem List.not_mem_nil, h⟩
  | cons component components ih =>
    rw [List.pairwise_cons] at distinct
    rw [List.forall_mem_cons]
    rw [List.flatMap_cons, List.flatMap_cons, List.append_assoc, List.append_assoc] at h
    have read := congrArg Digits.unsigned? h
    cases found : number component with
    | none =>
      cases found' : number' component with
      | none =>
        rw [partChars_of_none found, partChars_of_none found'] at h
        obtain ⟨same, behind⟩ := ih distinct.2 h
        exact ⟨⟨rfl, same⟩, behind⟩
      | some n' =>
        rw [partChars_of_none found, List.nil_append,
          unsigned?_part (admissible' component n' found').1 found'] at read
        obtain ⟨c, mem, clash⟩ := designator_of_unsigned?_flatMap admissible ends read
        exact absurd clash (distinct.1 c mem)
    | some n =>
      rw [unsigned?_part (admissible component n found).1 found] at read
      cases found' : number' component with
      | none =>
        rw [partChars_of_none found', List.nil_append] at read
        obtain ⟨c, mem, clash⟩ := designator_of_unsigned?_flatMap admissible' ends' read.symm
        exact absurd clash (distinct.1 c mem)
      | some n' =>
        rw [unsigned?_part (admissible' component n' found').1 found'] at read
        simp only [Option.some.injEq, Prod.mk.injEq, List.cons.injEq, true_and] at read
        obtain ⟨same, behind⟩ := ih distinct.2 read.2
        exact ⟨⟨congrArg some read.1, same⟩, behind⟩

end

theorem bodyChars_injective {number number' : Component → Option Digits.Written}
    (admissible : Admissible number) (admissible' : Admissible number')
    {marked marked' : Bool} (timeless : marked = false → ∀ c ∈ Component.times, number c = none)
    (timeless' : marked' = false → ∀ c ∈ Component.times, number' c = none)
    (h : bodyChars number marked = bodyChars number' marked') : number = number' := by
  -- No number begins with the mark of time, nor where the text ends.
  have ends (marked : Bool) (number : Component → Option Digits.Written) : Digits.unsigned?
      (if marked then 'T' :: Component.times.flatMap (partChars number) else []) = none := by
    cases marked <;> rfl
  obtain ⟨dates, behind⟩ := flatMap_partChars_injective admissible admissible' (by decide)
    (ends marked number) (ends marked' number') h
  have times : ∀ c ∈ Component.times, number c = number' c := by
    cases marked with
    | false =>
      cases marked' with
      | false =>
        intro c mem
        rw [timeless rfl c mem, timeless' rfl c mem]
      | true => simp only [Bool.false_eq_true, if_false, if_true, reduceCtorEq] at behind
    | true =>
      cases marked' with
      | false => simp only [Bool.false_eq_true, if_false, if_true, reduceCtorEq] at behind
      | true =>
        have tail := congrArg (· ++ []) (List.tail_eq_of_cons_eq behind)
        exact (flatMap_partChars_injective admissible admissible' (by decide) rfl rfl tail).1
  exact funext (Component.forall_dates_times_iff.1 ⟨dates, times⟩)

theorem WrittenDuration.InGrammar.unique {w w' : WrittenDuration} (h : w.InGrammar)
    (h' : w'.InGrammar) (same : w.chars = w'.chars) : w = w' := by
  obtain ⟨minus, number⟩ := w
  obtain ⟨minus', number'⟩ := w'
  have split : minus = minus' ∧ bodyChars number (hasTime ⟨minus, number⟩) =
      bodyChars number' (hasTime ⟨minus', number'⟩) := by
    cases minus <;> cases minus' <;>
      simp only [chars, Digits.signChars, Bool.false_eq_true, if_true, if_false, List.nil_append,
        List.cons_append, List.cons.injEq, Char.reduceEq, true_and, false_and] at same <;>
      exact ⟨rfl, same⟩
  have numbers : number = number' := bodyChars_injective h.admissible h'.admissible
    hasTime_eq_false_iff.1 hasTime_eq_false_iff.1 split.2
  rw [split.1, numbers]

/-! ## The text of a duration -/

def Component.numeral (size : Magnitudes) : Component → Digits.Written
  | .years => ⟨Digits.ofNat size.years.toNat, []⟩
  | .months => ⟨Digits.ofNat size.months.toNat, []⟩
  | .days => ⟨Digits.ofNat size.days.toNat, []⟩
  | .hours => ⟨Digits.ofNat size.hours.toNat, []⟩
  | .minutes => ⟨Digits.ofNat size.minutes.toNat, []⟩
  | .seconds => size.seconds.written

def written (d : Duration) : WrittenDuration where
  minus := d.negative
  number component :=
    if d.amount component ≠ 0 ∨ component = .seconds ∧ d.isZero then
      some (component.numeral d.toMagnitudes)
    else none

theorem toRat_numeral (d : Duration) (component : Component) :
    (component.numeral d.toMagnitudes).toRat = d.amount component := by
  cases component with
  | seconds => exact Decimal.toRat_written d.plain.positive
  | _ => simp only [Component.numeral, Digits.Written.toRat_integral, Digits.value_ofNat,
      Magnitudes.amount]

theorem lexical_numeral (d : Duration) (component : Component) :
    (component.numeral d.toMagnitudes).Lexical := by
  cases component with
  | seconds => exact d.seconds.lexical_written
  | _ => exact Digits.Written.lexical_ofNat _

theorem takes_numeral (d : Duration) (component : Component) :
    component.Takes (component.numeral d.toMagnitudes) := by
  have lexical := d.lexical_numeral component
  cases component with
  | seconds => exact (Component.exists_set_iff lexical).1 ⟨_, Component.set_seconds d.plain [] {}⟩
  | _ => exact (Component.exists_set_iff lexical).1 ⟨_, Component.set_ofNat (by decide) _ [] {}⟩

theorem getLast?_numeral_ne (d : Duration) (component : Component) :
    (component.numeral d.toMagnitudes).fraction.getLast? ≠ some '0' := by
  cases component with
  | seconds => exact Decimal.getLast?_written_ne d.plain
  | _ => simp only [Component.numeral, List.getLast?_nil, ne_eq, reduceCtorEq, not_false_eq_true]

theorem exists_amount_ne_zero_iff (d : Duration) :
    (∃ component, d.amount component ≠ 0) ↔ d.isZero = false := by
  rw [Bool.eq_false_iff, Ne, isZero, d.isZero_iff_amount, not_forall]

theorem mem_number_written_iff {d : Duration} {component : Component} {n : Digits.Written} :
    n ∈ d.written.number component ↔
      (d.amount component ≠ 0 ∨ component = .seconds ∧ d.isZero) ∧
        component.numeral d.toMagnitudes = n := by
  simp only [written, Option.mem_def, Option.ite_none_right_eq_some, Option.some.injEq]

theorem inGrammar_written (d : Duration) : d.written.InGrammar where
  admissible := by
    intro component n mem
    obtain ⟨_, rfl⟩ := mem_number_written_iff.1 mem
    exact ⟨d.lexical_numeral component, d.takes_numeral component⟩
  some_number := by
    have present (component : Component)
        (h : d.amount component ≠ 0 ∨ component = .seconds ∧ d.isZero) :
        d.written.number component ≠ none :=
      Option.ne_none_iff_exists'.2 ⟨_, mem_number_written_iff.2 ⟨h, rfl⟩⟩
    cases empty : d.isZero with
    | true => exact ⟨.seconds, present _ (.inr ⟨rfl, empty⟩)⟩
    | false =>
      obtain ⟨component, sized⟩ := d.exists_amount_ne_zero_iff.2 empty
      exact ⟨component, present _ (.inl sized)⟩

section
variable {d : Duration} (some_size : d.isZero = false)
include some_size

theorem number_written (component : Component) : d.written.number component =
    if d.amount component = 0 then none else some (component.numeral d.toMagnitudes) := by
  by_cases zero : d.amount component = 0 <;>
    simp only [written, zero, some_size, ne_eq, not_true_eq_false, not_false_eq_true,
      Bool.false_eq_true, and_false, or_false, if_true, if_false]

theorem hasTime_written : d.written.hasTime = d.hasTime := by
  have timeless : d.written.hasTime = false ↔ d.hasTime = false := by
    rw [WrittenDuration.hasTime_eq_false_iff, d.hasTime_eq_false_iff_amount]
    simp only [Component.times, List.forall_mem_cons, List.not_mem_nil, false_implies,
      implies_true, and_true, number_written some_size, ite_eq_left_iff, reduceCtorEq, imp_false,
      Decidable.not_not]
  rw [Bool.eq_iff_iff, ← not_iff_not, Bool.not_eq_true, Bool.not_eq_true, timeless]

theorem partChars_whole (component : Component) {n : UInt64}
    (amount : d.amount component = n.toNat)
    (numeral : component.numeral d.toMagnitudes = ⟨Digits.ofNat n.toNat, []⟩) :
    partChars d.written.number component = componentChars n component.designator := by
  rw [partChars, number_written some_size, amount, numeral]
  simp only [Magnitudes.count_eq_zero_iff, componentChars]
  split <;> rfl

theorem partChars_seconds : partChars d.written.number .seconds =
    if d.seconds.isZero then [] else d.seconds.chars ++ ['S'] := by
  have chars := Decimal.chars_written d.plain.positive
  rw [partChars, number_written some_size]
  simp only [Magnitudes.amount, ← Decimal.isZero_iff_toRat, Component.numeral]
  split
  · rfl
  · rw [Option.elim_some, chars]
    rfl

end

theorem chars_written (d : Duration) : d.written.chars = d.chars := by
  cases empty : d.isZero with
  | true =>
    rw [eq_zero_of_isZero empty]
    decide +kernel
  | false =>
    have years := partChars_whole empty .years rfl rfl
    have months := partChars_whole empty .months rfl rfl
    have days := partChars_whole empty .days rfl rfl
    have hours := partChars_whole empty .hours rfl rfl
    have minutes := partChars_whole empty .minutes rfl rfl
    simp only [WrittenDuration.chars, hasTime_written empty, bodyChars, Component.dates,
      Component.times, List.flatMap_cons, List.flatMap_nil, List.append_nil, List.append_assoc,
      years, months, days, hours, minutes, partChars_seconds empty, chars, empty, timeChars]
    rfl

theorem toList_text (d : Duration) : d.text.toList = d.written.chars := by
  rw [text, String.toList_ofList, chars_written]

theorem WrittenDuration.Denotes.of_text {w : WrittenDuration} {d : Duration} (h : w.InGrammar)
    (same : d.text.toList = w.chars) : w.Denotes d := by
  obtain ⟨e, read, denotes⟩ := h.read
  rw [← same, text, String.toList_ofList, d.read_chars] at read
  exact Except.ok.inj read ▸ denotes

/-- Nothing is written that could be left out. -/
structure WrittenDuration.Canonical (w : WrittenDuration) : Prop where
  sized : (∃ component, w.amount component ≠ 0) →
    ∀ component, ∀ n ∈ w.number component, n.toRat ≠ 0
  empty : (∀ component, w.amount component = 0) → w.chars = "PT0S".toList
  signed : w.minus = true → ∃ component, w.amount component ≠ 0
  stripped : ∀ component, ∀ n ∈ w.number component, n.fraction.getLast? ≠ some '0'

theorem canonical_written (d : Duration) : d.written.Canonical := by
  have denotes := WrittenDuration.Denotes.of_text d.inGrammar_written d.toList_text
  refine ⟨fun some_size component n mem => ?_, fun none => ?_, fun minus => ?_,
    fun component n mem => ?_⟩
  · simp only [← denotes.amount] at some_size
    obtain ⟨shown, rfl⟩ := mem_number_written_iff.1 mem
    rw [d.exists_amount_ne_zero_iff.1 some_size] at shown
    rw [toRat_numeral]
    exact shown.resolve_right fun zero => Bool.false_ne_true zero.2
  · simp only [← denotes.amount] at none
    rw [chars_written, chars, isZero, d.isZero_iff_amount.2 none]
    rfl
  · exact (denotes.negative.1 minus).2
  · obtain ⟨_, rfl⟩ := mem_number_written_iff.1 mem
    exact d.getLast?_numeral_ne component

/-- A duration is read back from its text, so the text is of no other duration. The text is in the
grammar in one way, which has nothing of no size in it. -/
theorem text_is_canonical (d : Duration) :
    parse d.text = .ok d ∧ (∀ e : Duration, d.text = e.text → d = e) ∧
      (∃! w : WrittenDuration, w.InGrammar ∧ d.text.toList = w.chars) ∧
      ∀ w : WrittenDuration, w.InGrammar → d.text.toList = w.chars → w.Denotes d ∧ w.Canonical := by
  have only (w : WrittenDuration) (h : w.InGrammar) (shown : d.text.toList = w.chars) :
      w = d.written := h.unique d.inGrammar_written (shown.symm.trans d.toList_text)
  refine ⟨d.parse_text, fun e shown => ?_, ?_, fun w h shown => ?_⟩
  · have read := d.parse_text
    rw [shown, e.parse_text] at read
    exact (Except.ok.inj read).symm
  · exact ⟨d.written, ⟨d.inGrammar_written, d.toList_text⟩, fun w h => only w h.1 h.2⟩
  · exact ⟨.of_text h shown, only w h shown ▸ d.canonical_written⟩

theorem padding_and_sign_dropped :
    let padded : Decimal := ⟨false, 6050, 3, by decide, by decide⟩
    let short : Decimal := ⟨false, 605, 2, by decide, by decide⟩
    let size : Magnitudes := { months := 14, hours := 25, seconds := padded }
    let d : Duration := (Duration.signed false size).negate
    let e : Duration := .signed true { size with seconds := short }
    let empty : Duration := .signed true { seconds := ⟨true, 0, 5, by decide, by decide⟩ }
    (d.text = "-P14MT25H6.05S" ∧ d.text = e.text ∧ parse d.text = .ok d ∧ d = e) ∧
      (d.written.InGrammar ∧ d.text.toList = d.written.chars ∧ d.written.Canonical) ∧
      empty.text = "PT0S" ∧ empty.written.Canonical := by
  intro padded short size d e empty
  have shown : d.text = "-P14MT25H6.05S" ∧ e.text = "-P14MT25H6.05S" ∧ empty.text = "PT0S" := by
    decide +kernel
  have same : d.text = e.text := shown.1.trans shown.2.1.symm
  have chars : d.text.toList = d.written.chars ∧ empty.text.toList = empty.written.chars := by
    decide +kernel
  obtain ⟨read, only, _, canonical⟩ := text_is_canonical d
  obtain ⟨_, _, _, canonical'⟩ := text_is_canonical empty
  exact ⟨⟨shown.1, same, read, only e same⟩,
    ⟨d.inGrammar_written, chars.1, (canonical _ d.inGrammar_written chars.1).2⟩,
    shown.2.2, (canonical' _ empty.inGrammar_written chars.2).2⟩

end PolicyValues.Duration
