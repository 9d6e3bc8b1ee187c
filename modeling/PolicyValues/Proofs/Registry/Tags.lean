import PolicyValues.Attribute.Json
import PolicyValues.Proofs.Conversion.Agreement
import PolicyValues.Proofs.Registry.Contents

/-!
Attributes are tagged by what they hold: with the current identifier of their value's datatype,
which the registry that made them has. A former identifier that a registry has does what the current
one does, down to the errors.
-/
namespace PolicyValues

namespace ConversionError

def identifier : ConversionError → String
  | unreadable t _ _ _ => t.identifier
  | unsupported identifier _ => identifier
  | foreignValue t _ => t.identifier
  | unordered t _ => t.identifier
  | unknownDataType identifier => identifier

theorem identifier_in_message (e : ConversionError) :
    ∃ before after, e.message = before ++ e.identifier ++ after := by
  cases e with
  | unreadable t source text cause =>
    refine ⟨s!"cannot convert {source.name} '{text}' to ", s!": {cause.message}", ?_⟩
    unfold message identifier
    simp only [toString, String.append_assoc]
  | unsupported i source =>
    refine ⟨"", s!" cannot be built from a {source.name} source", ?_⟩
    unfold message identifier
    simp only [toString, String.append_assoc, String.empty_append]
  | foreignValue t valueType =>
    refine ⟨s!"{valueType.name} value does not belong to ", "", ?_⟩
    unfold message identifier
    simp only [toString, String.append_assoc, String.append_empty]
  | unordered t cause =>
    refine ⟨"cannot order ", s!" values: {cause.message}", ?_⟩
    unfold message identifier
    simp only [toString, String.append_assoc]
  | unknownDataType i =>
    refine ⟨"unknown data type: ", "", ?_⟩
    unfold message identifier
    simp only [toString, String.append_empty]

end ConversionError

namespace DataType

theorem eq_of_former {t u : DataType} {i : String} (known : i ∈ t.formerIdentifiers)
    (listed : (⟨i, u⟩ : Entry) ∈ directory) : u = t := by
  have own : (⟨i, t⟩ : Entry) ∈ directory := mem_directory_iff.2 (.inr known)
  exact congrArg Entry.dataType (eq_of_mem_directory listed own rfl)

theorem identifier_not_former (t u : DataType) : u.identifier ∉ t.formerIdentifiers := by
  intro known
  obtain rfl := eq_of_former known (mem_directory_iff.2 (.inl rfl))
  have apart : ∀ t ∈ all, t.identifier ∉ t.formerIdentifiers := by decide +kernel
  exact apart u (mem_all u) known

theorem identifier_of_refused {t : DataType} {s : Source} {e : ConversionError}
    (refused : t.convert s = .error e) : e.identifier = t.identifier := by
  cases carried : t.carried? s.flatten with
  | some v => rw [convert_of_carried? carried] at refused; simp only [reduceCtorEq] at refused
  | none =>
    unfold convert at refused
    simp only [carried] at refused
    split at refused
    · rw [← Except.error.inj refused, ConversionError.identifier]
    · split at refused
      · simp only [reduceCtorEq] at refused
      · rw [← Except.error.inj refused, ConversionError.identifier]

end DataType

namespace Registry

variable {r : Registry} {i : String} {t : DataType} {s : Source}

theorem create_eq_map_convert (r : Registry) (i : String) (s : Source) :
    r.create i s = (r.convert i s).map fun v => ⟨v.dataType, v, s.category?⟩ := by
  unfold create convert
  cases r.require i with
  | error e => rfl
  | ok t =>
    change t.createUnder s.category? (r.prepare t s) = (t.convert (r.prepare t s)).map _
    unfold DataType.createUnder
    cases made : t.convert (r.prepare t s) with
    | error e => rfl
    | ok v => rw [← DataType.dataType_of_convert made]; rfl

theorem get?_dataType {v : Value} (made : r.convert i s = .ok v) :
    r.get? i = some v.dataType := by
  obtain ⟨t, known, made⟩ := bind_eq_ok_iff.1 made
  rw [DataType.dataType_of_convert made]
  exact require_eq_ok_iff.1 known

theorem get?_former (known : i ∈ t.formerIdentifiers) (held : r.contains i = true) :
    r.get? i = some t := by
  obtain ⟨u, named⟩ := contains_iff.1 held
  obtain rfl := DataType.eq_of_former known named.listed
  exact get?_eq_some_iff.2 named

theorem convert_former (known : i ∈ t.formerIdentifiers) (held : r.contains i = true)
    (s : Source) : r.convert i s = r.convert t.identifier s := by
  have found := get?_former known held
  have target : r.get? t.identifier = some t :=
    get?_eq_some_iff.2 (get?_eq_some_iff.1 found).target
  rw [convert_of_get? found, convert_of_get? target]

theorem convert_of_not_contains (absent : r.contains i = false) (s : Source) :
    r.convert i s = .error (.unknownDataType i) := by
  rw [convert, require_of_not_contains absent]
  rfl

end Registry

namespace Attribute

/-- Tagged for a registry: with the identifier of the value's own datatype, which is no former
identifier and which the registry has for that datatype. -/
structure TaggedIn (r : Registry) (a : Attribute) : Prop where
  own : a.dataType.identifier = a.value.dataType.identifier
  current : ∀ t : DataType, a.dataType.identifier ∉ t.formerIdentifiers
  held : r.contains a.dataType.identifier = true
  registered : r.get? a.dataType.identifier = some a.value.dataType

theorem TaggedIn.of_convert {r : Registry} {i : String} {s : Source} {a : Attribute}
    (made : r.convert i s = .ok a.value) (own : a.dataType = a.value.dataType) :
    a.TaggedIn r := by
  have named := (Registry.get?_eq_some_iff.1 (Registry.get?_dataType made)).target
  rw [← own] at named
  exact {
    own := congrArg DataType.identifier own
    current := fun t => DataType.identifier_not_former t a.dataType
    held := Registry.contains_iff.2 ⟨_, named⟩
    registered := own ▸ Registry.get?_eq_some_iff.2 named }

theorem value_of_create {r : Registry} {i : String} {s : Source} {a : Attribute}
    (made : r.create i s = .ok a) :
    r.convert i s = .ok a.value ∧ a.dataType = a.value.dataType := by
  rw [Registry.create_eq_map_convert] at made
  obtain ⟨v, converted, rfl⟩ := map_eq_ok_iff.1 made
  exact ⟨converted, rfl⟩

theorem value_of_ofJson {j : Json} {a : Attribute} (read : ofJson j = .ok a) :
    ∃ i s, Registry.default.convert i s = .ok a.value ∧ a.dataType = a.value.dataType := by
  obtain ⟨w, -, read⟩ := bind_eq_ok_iff.1 read
  dsimp only at read
  split at read
  · rename_i b made
    obtain rfl := Except.ok.inj read
    obtain ⟨t, known, made⟩ := bind_eq_ok_iff.1 made
    obtain ⟨v, converted, made⟩ := bind_eq_ok_iff.1 made
    obtain rfl := Except.ok.inj made
    unfold Registry.valueOfJson at converted
    split at converted
    · rename_i s _
      have found := Registry.get?_dataType converted
      rw [Registry.require_eq_ok_iff.1 known] at found
      exact ⟨w.dataType, s, converted, Option.some.inj found⟩
    · simp only [reduceCtorEq] at converted
  · simp only [reduceCtorEq, throw, throwThe, MonadExceptOf.throw] at read

end Attribute

theorem attributes_tagged_by_their_values :
    (∀ (r : Registry) (i : String) (s : Source) (a : Attribute),
      r.create i s = .ok a → a.TaggedIn r) ∧
    (∀ (j : Json) (a : Attribute), Attribute.ofJson j = .ok a → a.TaggedIn .default) ∧
    (∀ (r : Registry) (t : DataType), ∀ i ∈ t.formerIdentifiers, r.contains i = true →
      ∀ s : Source, r.convert i s = r.convert t.identifier s ∧
        r.create i s = r.create t.identifier s ∧
        ∀ e, r.convert i s = .error e ∨ r.create i s = .error e →
          e.identifier = t.identifier ∧
            ∃ before after, e.message = before ++ t.identifier ++ after) ∧
    ∀ (r : Registry) (i : String), r.contains i = false →
      ∀ s : Source, r.convert i s = .error (.unknownDataType i) ∧
        r.create i s = .error (.unknownDataType i) := by
  refine ⟨fun r i s a made => ?_, fun j a read => ?_, fun r t i known held s => ?_,
    fun r i absent s => ?_⟩
  · obtain ⟨converted, own⟩ := Attribute.value_of_create made
    exact .of_convert converted own
  · obtain ⟨i, s, converted, own⟩ := Attribute.value_of_ofJson read
    exact .of_convert converted own
  · have same := Registry.convert_former known held s
    refine ⟨same, ?_, fun e refused => ?_⟩
    · rw [Registry.create_eq_map_convert, Registry.create_eq_map_convert, same]
    · have refused : r.convert i s = .error e := by
        rcases refused with refused | refused
        · exact refused
        · rwa [Registry.create_eq_map_convert, map_eq_error_iff] at refused
      rw [Registry.convert_of_get? (Registry.get?_former known held)] at refused
      have named := DataType.identifier_of_refused refused
      exact ⟨named, named ▸ e.identifier_in_message⟩
  · have refused := Registry.convert_of_not_contains absent s
    rw [Registry.create_eq_map_convert, refused]
    exact ⟨rfl, rfl⟩

theorem day_tagged_by_its_current_identifier :
    let former := "http://www.w3.org/TR/2002/WD-xquery-operators-20020816#dayTimeDuration"
    let current := DataType.dayTimeDuration.identifier
    let seconds : Decimal := ⟨false, 86400, 0, by decide, by decide⟩
    let day : Attribute :=
      ⟨.dayTimeDuration, .dayTimeDuration ⟨.signed false { days := 1 }, seconds⟩, none⟩
    let j : Json := .object [("DataType", .string former), ("Value", .string "P1D")]
    let r : Registry := ⟨{ disabled := [DataType.string.identifier] }⟩
    let refused : ConversionError := .unsupported current .bytes
    (r.create former (.text "P1D") = .ok day ∧ day.TaggedIn r) ∧
    (Attribute.ofJson j = .ok day ∧ day.TaggedIn .default) ∧
    (r.create former (.text "P1D") = r.create current (.text "P1D") ∧
      r.create former (.bytes []) = .error refused ∧ refused.identifier = current) ∧
    (Registry.mk .strict).contains former = false ∧
      (Registry.mk .strict).create former (.text "P1D") = .error (.unknownDataType former) := by
  intro former current seconds day j r refused
  obtain ⟨created, read, alike, unknown⟩ := attributes_tagged_by_their_values
  have made : r.create former (.text "P1D") = .ok day := by decide +kernel
  have made' : Attribute.ofJson j = .ok day := by
    have known : Registry.default.require former = .ok .dayTimeDuration := by decide +kernel
    have value : Registry.default.valueOfJson former (.string "P1D") = .ok day.value := by
      decide +kernel
    have written : Attribute.Written.ofJson j = .ok ⟨former, .string "P1D", none⟩ := rfl
    simp only [Attribute.ofJson, written, known, value, bind, Except.bind, pure, Except.pure]
    rfl
  have known : former ∈ DataType.dayTimeDuration.formerIdentifiers := by decide +kernel
  have held : r.contains former = true := by decide +kernel
  have refusal : r.create former (.bytes []) = .error refused := by decide +kernel
  have absent : (Registry.mk .strict).contains former = false := by decide +kernel
  have same := alike r .dayTimeDuration former known held
  exact ⟨⟨made, created r former _ day made⟩, ⟨made', read j day made'⟩,
    ⟨(same _).2.1, refusal, ((same _).2.2 refused (.inr refusal)).1⟩, absent,
    (unknown _ former absent _).2⟩

end PolicyValues
