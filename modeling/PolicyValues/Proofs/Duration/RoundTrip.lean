import PolicyValues.Duration.Reader
import PolicyValues.Proofs.Decimal.Reading

/-!
Durations read back from their texts. Components of no size are not written, and the reader leaves
them as they are in the beginning, so each of the six can be followed alone.
-/
namespace PolicyValues.Duration
open Text

namespace Component

def assign (component : Component) (n : UInt64) (size : Magnitudes) : Magnitudes :=
  match component with
  | years => { size with years := n }
  | months => { size with months := n }
  | days => { size with days := n }
  | hours => { size with hours := n }
  | minutes => { size with minutes := n }
  | seconds => size

theorem set_ofNat {component : Component} (integral : component ≠ seconds) (n : UInt64)
    (before : List Char) (size : Magnitudes) :
    component.set ⟨Digits.ofNat n.toNat, []⟩ before size = .ok (component.assign n size) := by
  simp only [set, integral, if_false, ne_eq, not_true_eq_false, Digits.value_ofNat,
    Nat.not_le.2 n.toNat_lt, UInt64.ofNat_toNat]
  cases component <;> rfl

theorem set_seconds {s : Decimal} (plain : s.Plain) (before : List Char) (size : Magnitudes) :
    seconds.set s.written before size = .ok { size with seconds := s } := by
  simp only [set, if_true, Decimal.readExact?_eq s.lexical_written,
    Decimal.ofWrittenExact?_written plain]

theorem designator_ends {inTime : Bool} {letter : Char} {component : Component}
    (h : ofDesignator? inTime letter = some component) : letter.isDigit = false ∧ letter ≠ '.' := by
  unfold ofDesignator? at h
  split at h
  · split at h <;> first | decide | simp only [reduceCtorEq] at h
  · split at h <;> first | decide | simp only [reduceCtorEq] at h

end Component

namespace Progress

def push (p : Progress) (component : Component) (size : Magnitudes) : Progress where
  size := size
  last := some component
  inTime := p.inTime
  timeComponents := p.timeComponents + if p.inTime then 1 else 0

def after (p : Progress) (component : Component) (n : UInt64) : Progress :=
  if n = 0 then p else p.push component (component.assign n p.size)

def afterSeconds (p : Progress) (s : Decimal) : Progress :=
  if s.isZero then p else p.push .seconds { p.size with seconds := s }

theorem inTime_after (p : Progress) (component : Component) (n : UInt64) :
    (p.after component n).inTime = p.inTime := by
  unfold after
  split <;> rfl

theorem size_after {p : Progress} {component : Component}
    (unset : component.assign 0 p.size = p.size) (n : UInt64) :
    (p.after component n).size = component.assign n p.size := by
  unfold after
  split
  · rename_i zero
    rw [zero, unset]
  · rfl

def Before (p : Progress) (rank : Nat) : Prop :=
  ∀ component : Component, rank ≤ component.rank → p.admits component = true

theorem before_nothing : Before {} 0 := fun _ _ => rfl

theorem Before.after {p : Progress} {component : Component} (h : p.Before component.rank)
    (n : UInt64) : (p.after component n).Before (component.rank + 1) := by
  intro later le
  unfold Progress.after
  split
  · exact h later (Nat.le_of_succ_le le)
  · exact decide_eq_true le

theorem last_after (p : Progress) (component : Component) (n : UInt64) :
    (p.after component n).last = none ↔ p.last = none ∧ n = 0 := by
  unfold after
  split
  · rename_i zero
    simp only [zero, and_true]
  · rename_i some_size
    simp only [push, reduceCtorEq, some_size, and_false]

theorem timeComponents_after {p : Progress} (timed : p.inTime = true) (component : Component)
    (n : UInt64) :
    (p.after component n).timeComponents = 0 ↔ p.timeComponents = 0 ∧ n = 0 := by
  unfold after
  split
  · rename_i zero
    simp only [zero, and_true]
  · rename_i some_size
    simp only [push, timed, if_true, Nat.add_eq_zero_iff, Nat.one_ne_zero, some_size, and_false]

end Progress

theorem readComponents_step {p : Progress} {cs rest : List Char} {number : Digits.Written}
    {letter : Char} {component : Component}
    (digits : Digits.unsigned? cs = some (number, letter :: rest))
    (designates : Component.ofDesignator? p.inTime letter = some component)
    (admitted : p.admits component = true) :
    readComponents p cs = (do
      let size ← component.set number cs p.size
      readComponents (p.push component size) rest) := by
  -- Neither the end of the text nor a `T` is read as a number.
  have nonempty : cs ≠ [] := by
    rintro rfl
    simp [Digits.unsigned?, Digits.span] at digits
  have untimed : ∀ more, cs ≠ 'T' :: more := by
    rintro more rfl
    simp [Digits.unsigned?, Digits.span] at digits
  rw [readComponents.eq_3 p cs nonempty untimed]
  split
  · simp_all
  · simp_all
  · rename_i number' letter' rest' digits'
    rw [digits] at digits'
    simp only [Option.some.injEq, Prod.mk.injEq, List.cons.injEq] at digits'
    obtain ⟨rfl, rfl, rfl⟩ := digits'
    simp only [designates, admitted, if_true]
    cases component.set number cs p.size <;> rfl

theorem readComponents_number {p : Progress} {cs rest : List Char} {number : Digits.Written}
    {letter : Char} {component : Component} {size : Magnitudes}
    (digits : Digits.unsigned? cs = some (number, letter :: rest))
    (designates : Component.ofDesignator? p.inTime letter = some component)
    (admitted : p.admits component = true) (set : component.set number cs p.size = .ok size) :
    readComponents p cs = readComponents (p.push component size) rest := by
  rw [readComponents_step digits designates admitted, set]
  rfl

theorem readComponents_componentChars {p : Progress} {letter : Char} {component : Component}
    (designates : Component.ofDesignator? p.inTime letter = some component)
    (integral : component ≠ .seconds) (admitted : p.admits component = true) (n : UInt64)
    (rest : List Char) :
    readComponents p (componentChars n letter ++ rest) =
      readComponents (p.after component n) rest := by
  by_cases zero : n = 0
  · simp only [componentChars, zero, if_true, List.nil_append, Progress.after]
  · obtain ⟨digit, point⟩ := Component.designator_ends designates
    have stops : Stops Char.isDigit (letter :: rest) := stops_cons.2 digit
    have digits : Digits.unsigned? (Digits.ofNat n.toNat ++ letter :: rest) =
        some (⟨Digits.ofNat n.toNat, []⟩, letter :: rest) := by
      simp only [Digits.unsigned?, Digits.span_append_of_stops Digits.isDigit_of_mem_ofNat stops,
        Digits.ofNat_ne_nil, if_false]
      rw [Decimal.fractionAfter_of_stops]
      simpa using point
    simp only [componentChars, zero, if_false, List.append_assoc, List.singleton_append,
      Progress.after]
    exact readComponents_number digits designates admitted (Component.set_ofNat integral n _ _)

theorem readComponents_seconds {p : Progress} (timed : p.inTime = true)
    (admitted : p.admits .seconds = true) {s : Decimal} (plain : s.Plain) :
    readComponents p (if s.isZero then [] else s.chars ++ ['S']) = .ok (p.afterSeconds s) := by
  by_cases zero : s.isZero
  · simp only [zero, if_true, readComponents, Progress.afterSeconds]
  · have designates : Component.ofDesignator? p.inTime 'S' = some .seconds := by rw [timed]; rfl
    have digits := Decimal.unsigned?_chars plain.positive
      (stops_cons.2 rfl : Stops Char.isDigit ['S']) (by decide)
    simp only [zero, Bool.false_eq_true, if_false, Progress.afterSeconds]
    rw [readComponents_number digits designates admitted (Component.set_seconds plain _ _),
      readComponents]

def dated (d : Duration) : Progress :=
  ((Progress.after {} .years d.years).after .months d.months).after .days d.days

def finished (d : Duration) : Progress :=
  if d.hasTime then
    (({ d.dated with inTime := true }.after .hours d.hours).after .minutes d.minutes).afterSeconds
      d.seconds
  else d.dated

theorem inTime_dated (d : Duration) : d.dated.inTime = false := by
  simp only [dated, Progress.inTime_after]

theorem before_dated (d : Duration) : d.dated.Before Component.hours.rank :=
  (((Progress.before_nothing.after d.years).after d.months).after d.days)

theorem readComponents_dated (d : Duration) (rest : List Char) :
    readComponents {} (componentChars d.years 'Y' ++ componentChars d.months 'M' ++
      componentChars d.days 'D' ++ rest) = readComponents d.dated rest := by
  have years := Progress.before_nothing
  have months : (Progress.after {} .years d.years).Before Component.months.rank :=
    years.after d.years
  have days : ((Progress.after {} .years d.years).after .months d.months).Before
      Component.days.rank := months.after d.months
  rw [List.append_assoc, List.append_assoc,
    readComponents_componentChars rfl (by decide) (years .years (Nat.le_refl _)),
    readComponents_componentChars (by rw [Progress.inTime_after]; rfl) (by decide)
      (months .months (Nat.le_refl _)),
    readComponents_componentChars (by rw [Progress.inTime_after, Progress.inTime_after]; rfl)
      (by decide) (days .days (Nat.le_refl _))]
  rfl

theorem readComponents_timeChars (d : Duration) :
    readComponents d.dated d.timeChars = .ok d.finished := by
  unfold timeChars finished
  split
  · have hours : Progress.Before { d.dated with inTime := true } Component.hours.rank :=
      d.before_dated
    have minutes : (Progress.after { d.dated with inTime := true } .hours d.hours).Before
        Component.minutes.rank := hours.after d.hours
    have seconds : ((Progress.after { d.dated with inTime := true } .hours d.hours).after .minutes
        d.minutes).Before Component.seconds.rank := minutes.after d.minutes
    simp only [readComponents, inTime_dated, Bool.false_eq_true, if_false]
    rw [List.append_assoc,
      readComponents_componentChars rfl (by decide) (hours .hours (Nat.le_refl _)),
      readComponents_componentChars (by rw [Progress.inTime_after]; rfl) (by decide)
        (minutes .minutes (Nat.le_refl _)),
      readComponents_seconds (by rw [Progress.inTime_after, Progress.inTime_after])
        (seconds .seconds (Nat.le_refl _)) d.plain]
  · simp only [readComponents]

theorem size_dated (d : Duration) :
    d.dated.size = { years := d.years, months := d.months, days := d.days } := by
  have years : (Progress.after {} .years d.years).size = { years := d.years } :=
    Progress.size_after rfl d.years
  have months : ((Progress.after {} .years d.years).after .months d.months).size =
      { years := d.years, months := d.months } := by
    rw [Progress.size_after (by rw [years]; rfl), years]
    rfl
  rw [dated, Progress.size_after (by rw [months]; rfl), months]
  rfl

theorem eq_zero_of_not_hasTime {d : Duration} (h : d.hasTime = false) :
    d.hours = 0 ∧ d.minutes = 0 ∧ d.seconds = .zero := by
  simp only [Magnitudes.hasTime, Bool.or_eq_false_iff, bne_eq_false_iff_eq, Bool.not_eq_false'] at h
  exact ⟨h.1.1, h.1.2, d.plain.eq_zero h.2⟩

theorem size_finished (d : Duration) : d.finished.size = d.toMagnitudes := by
  unfold finished
  split
  -- Component after component: each one is still zero when its turn comes.
  · generalize start : ({ d.dated with inTime := true } : Progress) = p
    have dated : p.size = { years := d.years, months := d.months, days := d.days } := by
      rw [← start]
      exact d.size_dated
    have hours : (p.after .hours d.hours).size =
        { years := d.years, months := d.months, days := d.days, hours := d.hours } := by
      rw [Progress.size_after (by rw [dated]; rfl), dated]
      rfl
    have minutes : ((p.after .hours d.hours).after .minutes d.minutes).size =
        { years := d.years, months := d.months, days := d.days, hours := d.hours
          minutes := d.minutes } := by
      rw [Progress.size_after (by rw [hours]; rfl), hours]
      rfl
    unfold Progress.afterSeconds
    split
    · rename_i zero
      rw [minutes, ← d.plain.eq_zero zero]
    · simp only [Progress.push, minutes]
  · rename_i untimed
    obtain ⟨hours, minutes, seconds⟩ := eq_zero_of_not_hasTime (Bool.eq_false_iff.2 untimed)
    have whole : d.toMagnitudes = ⟨d.years, d.months, d.days, d.hours, d.minutes, d.seconds⟩ := rfl
    rw [size_dated, whole, hours, minutes, seconds]

theorem components_finished {d : Duration} (h : d.hasTime = true) :
    d.finished.last ≠ none ∧ d.finished.timeComponents ≠ 0 := by
  simp only [finished, h, if_true]
  have timed : Progress.inTime { d.dated with inTime := true } = true := rfl
  unfold Progress.afterSeconds
  split
  · rename_i zero
    simp only [Magnitudes.hasTime, zero, Bool.not_true, Bool.or_false, Bool.or_eq_true, bne_iff_ne,
      ne_eq] at h
    rw [ne_eq, ne_eq, Progress.last_after, Progress.last_after,
      Progress.timeComponents_after (by rw [Progress.inTime_after]),
      Progress.timeComponents_after timed]
    grind
  · simp [Progress.push, Progress.inTime_after]

theorem last_dated {d : Duration} (some_size : d.isZero = false) (untimed : d.hasTime = false) :
    d.dated.last ≠ none := by
  rw [dated, ne_eq, Progress.last_after, Progress.last_after, Progress.last_after]
  rintro ⟨⟨⟨_, years⟩, months⟩, days⟩
  obtain ⟨hours, minutes, seconds⟩ := eq_zero_of_not_hasTime untimed
  rw [isZero, Magnitudes.isZero, years, months, days, hours, minutes, seconds] at some_size
  exact absurd some_size (by decide)

theorem signed_toMagnitudes (d : Duration) : signed d.negative d.toMagnitudes = d := by
  have seconds : d.seconds.abs.normalize = d.seconds := by
    have positive : d.seconds.abs = d.seconds := Decimal.mk_eq d.plain.positive.symm rfl rfl
    rw [positive, Decimal.normalize_eq_self d.plain]
  have same : { d.toMagnitudes with seconds := d.seconds.abs.normalize } = d.toMagnitudes := by
    rw [seconds]
  obtain ⟨size, negative, plain, length⟩ := d
  simp only at same
  simp only [signed, same]
  cases negative with
  | false => rfl
  | true => simp only [length rfl, Bool.not_false, Bool.and_self]

theorem eq_zero_of_isZero {d : Duration} (h : d.isZero = true) : d = zero := by
  have positive : d.negative = false := by
    cases negative : d.negative with
    | false => rfl
    | true => exact absurd h (by rw [isZero, d.length_of_negative negative]; decide)
  have size : d.toMagnitudes = {} := by
    simp only [isZero, Magnitudes.isZero, Bool.and_eq_true, beq_iff_eq] at h
    obtain ⟨⟨⟨⟨⟨years, months⟩, days⟩, hours⟩, minutes⟩, seconds⟩ := h
    have whole : d.toMagnitudes = ⟨d.years, d.months, d.days, d.hours, d.minutes, d.seconds⟩ := rfl
    rw [whole, years, months, days, hours, minutes, d.plain.eq_zero seconds]
  rw [← d.signed_toMagnitudes, positive, size, zero]

theorem read_of_components {negative : Bool} {body : List Char} {p : Progress}
    (components : readComponents {} body = .ok p) (last : p.last ≠ none)
    (time : (p.inTime && p.timeComponents == 0) = false) :
    read ((if negative then ['-'] else []) ++ 'P' :: body) = .ok (signed negative p.size) := by
  cases negative with
  | false =>
    simp only [read, Bool.false_eq_true, if_false, List.nil_append, List.cons.injEq, Char.reduceEq,
      false_and, imp_self, implies_true, Reader.mark_cons, components, last, time, bind,
      Except.bind]
  | true =>
    simp only [read, if_true, List.singleton_append, Reader.mark_cons, components, last, time,
      Bool.false_eq_true, if_false, bind, Except.bind]

theorem read_zero : read zero.chars = .ok zero := by
  have digits : Digits.unsigned? ['0', 'S'] = some (Decimal.zero.written, ['S']) := by decide
  have seconds := Component.set_seconds (Decimal.plain_normalize_abs .zero) ['0', 'S'] {}
  have components : readComponents {} ['T', '0', 'S'] =
      .ok (Progress.push { inTime := true } .seconds {}) := by
    rw [readComponents, if_neg Bool.false_ne_true, readComponents_number digits rfl rfl seconds,
      readComponents]
    rfl
  have positive : read ((if false then ['-'] else []) ++ 'P' :: ['T', '0', 'S']) =
      .ok (signed false {}) :=
    read_of_components components (Option.some_ne_none _) rfl
  exact positive

theorem read_chars (d : Duration) : read d.chars = .ok d := by
  cases empty : d.isZero with
  | true => rw [eq_zero_of_isZero empty, read_zero]
  | false =>
    -- A length other than zero writes a component, and a `T` only before one.
    have components := readComponents_timeChars d
    rw [← readComponents_dated] at components
    have complete : d.finished.last ≠ none ∧
        (d.finished.inTime && d.finished.timeComponents == 0) = false := by
      cases timed : d.hasTime with
      | true =>
        obtain ⟨last, time⟩ := components_finished timed
        exact ⟨last, by rw [beq_eq_false_iff_ne.2 time, Bool.and_false]⟩
      | false =>
        have dated : d.finished = d.dated := by
          simp only [finished, timed, Bool.false_eq_true, if_false]
        rw [dated, inTime_dated, Bool.false_and]
        exact ⟨last_dated empty timed, rfl⟩
    simp only [chars, empty, Bool.false_eq_true, if_false]
    rw [read_of_components components complete.1 complete.2, size_finished, signed_toMagnitudes]

theorem parse_text (d : Duration) : parse d.text = .ok d := by
  rw [parse, text, String.toList_ofList]
  exact mapError_eq_ok_iff.2 d.read_chars

end PolicyValues.Duration
