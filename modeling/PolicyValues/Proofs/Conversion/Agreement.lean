import PolicyValues.Conversion
import PolicyValues.Proofs.Value.RoundTrip

/-!
Converting a source is reading its text. A value that a source carries is taken as it is, and what
its text would read as is an equal value; that is so because every value was itself converted once.
-/
namespace PolicyValues

namespace Source

mutual

def values : Source → List Value
  | value v => [v]
  | sequence parts => valuesOfParts parts
  | _ => []

def valuesOfParts : List Source → List Value
  | [] => []
  | s :: rest => s.values ++ valuesOfParts rest

end

theorem text?_singleton (s : Source) : (sequence [s]).text? = s.text? := by
  simp only [text?, textOfParts?]
  cases s.text? with
  | none => rfl
  | some text => simp only [String.append_empty]

theorem text?_flatten (s : Source) : s.flatten.text? = s.text? := by
  induction s using flatten.induct with
  | case1 s ih => rw [flatten, ih, text?_singleton]
  | case2 s many => rw [flatten.eq_2 s many]

theorem values_flatten (s : Source) : s.flatten.values = s.values := by
  induction s using flatten.induct with
  | case1 s ih => rw [flatten, ih, values, valuesOfParts, valuesOfParts, List.append_nil]
  | case2 s many => rw [flatten.eq_2 s many]

end Source

/-- Values that some datatype made of a source whose own values were made so. -/
inductive Value.Converted : Value → Prop
  | of {t : DataType} {s : Source} {v : Value} (embedded : ∀ w ∈ s.values, Converted w)
      (made : t.convert s = .ok v) : Converted v

namespace DataType

theorem dataType_of_carried? {t : DataType} {s : Source} {v : Value} (h : t.carried? s = some v) :
    v.dataType = t := by
  unfold carried? at h
  split at h
  · split at h
    · rename_i own
      rw [← Option.some.inj h, own]
    · simp only [reduceCtorEq] at h
  all_goals first
    | rw [← Option.some.inj h]; rfl
    | simp only [reduceCtorEq] at h

theorem carried?_text (t : DataType) (text : String) : t.carried? (.text text) = none := by
  cases t <;> rfl

theorem convert_of_carried? {t : DataType} {s : Source} {v : Value}
    (h : t.carried? s.flatten = some v) : t.convert s = .ok v := by
  simp only [convert, h]

theorem convert_of_text? {t : DataType} {s : Source} {text : String}
    (uncarried : t.carried? s.flatten = none) (has : s.text? = some text) :
    t.convert s = (t.read text).mapError (.unreadable t s.flatten.kind text) := by
  rw [← Source.text?_flatten] at has
  simp only [convert, uncarried, has]
  cases t.read text <;> rfl

theorem dataType_of_convert {t : DataType} {s : Source} {v : Value} (h : t.convert s = .ok v) :
    v.dataType = t := by
  cases carried : t.carried? s.flatten with
  | some w =>
    rw [convert_of_carried? carried] at h
    rw [← Except.ok.inj h]
    exact dataType_of_carried? carried
  | none =>
    unfold convert at h
    simp only [carried] at h
    split at h
    · simp only [reduceCtorEq] at h
    · split at h
      · rename_i read
        rw [← Except.ok.inj h]
        exact dataType_of_read read
      · simp only [reduceCtorEq] at h

theorem text_of_carried? {t : DataType} {s : Source} {v : Value} {text : String}
    (h : t.carried? s = some v) (has : s.text? = some text) : v.text = text := by
  unfold carried? at h
  split at h
  · split at h
    · rw [← Option.some.inj h]
      exact Option.some.inj has
    · simp only [reduceCtorEq] at h
  all_goals first
    | rw [← Option.some.inj h]; exact Option.some.inj has
    | simp only [Source.text?, reduceCtorEq] at has
    | simp only [reduceCtorEq] at h

theorem readable_of_carried? {t : DataType} (typed : t ≠ .double) {s : Source} {v : Value}
    (h : t.carried? s = some v)
    (embedded : ∀ w ∈ s.values, w.dataType ≠ .double → w.Readable) : v.Readable := by
  have own := dataType_of_carried? h
  unfold carried? at h
  split at h
  · rename_i w
    split at h
    · rw [← Option.some.inj h] at own ⊢
      exact embedded w (by simp only [Source.values, List.mem_singleton]) (own ▸ typed)
    · simp only [reduceCtorEq] at h
  · rw [← Option.some.inj h]
    exact Value.readable_boolean _
  · rw [← Option.some.inj h]
    exact Value.readable_integer _
  · exact absurd rfl typed
  · rw [← Option.some.inj h]
    exact Value.readable_hexBinary _
  · rw [← Option.some.inj h]
    exact Value.readable_base64Binary _
  · simp only [reduceCtorEq] at h

end DataType

theorem Value.Converted.readable {v : Value} (h : v.Converted) :
    v.dataType ≠ .double → v.Readable := by
  induction h with
  | of embedded made ih =>
    rename_i t s v
    intro typed
    unfold DataType.convert at made
    simp only at made
    split at made
    -- A carried value stands in the source, or is of a datatype whose values all read back.
    · rename_i w carried
      rw [← Except.ok.inj made] at typed ⊢
      rw [DataType.dataType_of_carried? carried] at typed
      exact DataType.readable_of_carried? typed carried (by rwa [Source.values_flatten])
    · split at made
      · simp only [reduceCtorEq] at made
      · split at made
        · rename_i text _ w read
          rw [← Except.ok.inj made] at typed ⊢
          rw [DataType.dataType_of_read read] at typed
          exact DataType.readable_of_read typed read
        · simp only [reduceCtorEq] at made

/-- Two conversions end alike: in equal values, or with the same text blamed for the same cause. -/
inductive Agree : Except ConversionError Value → Except ConversionError Value → Prop
  | converted {v w : Value} (equal : v.Equal w) : Agree (.ok v) (.ok w)
  | refused {t : DataType} {kind kind' : SourceKind} {text : String} {cause : ValueError} :
      Agree (.error (.unreadable t kind text cause)) (.error (.unreadable t kind' text cause))

/-- A source that has a text converts as that text does. -/
theorem DataType.convert_agrees_with_text {t : DataType} (typed : t ≠ .double) {s : Source}
    (embedded : ∀ v ∈ s.values, v.Converted) {text : String} (has : s.text? = some text) :
    Agree (t.convert s) (t.convert (.text text)) := by
  have read : t.convert (.text text) = (t.read text).mapError (.unreadable t .text text) :=
    convert_of_text? (t.carried?_text text) rfl
  rw [read]
  cases carried : t.carried? s.flatten with
  | some v =>
    have readable := readable_of_carried? typed carried fun w mem =>
      (embedded w (by rwa [Source.values_flatten] at mem)).readable
    obtain ⟨w, back, equal⟩ := readable
    rw [← Source.text?_flatten] at has
    rw [dataType_of_carried? carried, text_of_carried? carried has] at back
    rw [convert_of_carried? carried, back]
    exact .converted equal
  | none =>
    rw [convert_of_text? carried has]
    cases t.read text with
    | ok v => exact .converted (.refl v)
    | error cause => exact .refused

theorem DataType.nested_duration_agrees :
    let seconds : Decimal := ⟨false, 900615, 1, by decide, by decide⟩
    let v : Value := .dayTimeDuration ⟨.signed false { seconds }, seconds⟩
    let s : Source := .sequence [.sequence [.value v]]
    (∀ w ∈ s.values, w.Converted) ∧ s.text? = some "P1DT1H1M1.5S" ∧
      Agree (dayTimeDuration.convert s) (dayTimeDuration.convert (.text "P1DT1H1M1.5S")) := by
  intro seconds v s
  have converted : v.Converted := by
    have alone : ∀ w ∈ (Source.text "PT090061.50S").values, w.Converted := by
      simp only [Source.values, List.not_mem_nil, false_implies, implies_true]
    have made : dayTimeDuration.convert (.text "PT090061.50S") = .ok v := by decide +kernel
    exact .of alone made
  have embedded : ∀ w ∈ s.values, w.Converted := by
    intro w mem
    rw [List.mem_singleton.1 mem]
    exact converted
  have has : s.text? = some "P1DT1H1M1.5S" := by decide +kernel
  exact ⟨embedded, has, convert_agrees_with_text (by decide) embedded has⟩

end PolicyValues
