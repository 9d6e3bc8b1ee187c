import PolicyValues.Attribute.Json
import PolicyValues.Proofs.Double.Rounding
import PolicyValues.Proofs.Registry.Tags
import PolicyValues.Proofs.Value.Unspaced

/-!
Values and attributes come back from the JSON trees they are written as. Truth values, whole numbers
and finite doubles are carried; what travels as a text has no blanks to lose, unless it is a string,
and strings keep theirs.
-/
namespace PolicyValues

namespace Registry

theorem values_collapse (s : Source) : (collapse s).values ⊆ s.values := by
  unfold collapse
  split
  · split
    · simp only
      split
      · exact List.Subset.refl _
      -- A node has no values.
      · exact List.nil_subset _
    · exact List.Subset.refl _
  · exact List.Subset.refl _

theorem values_prepare (r : Registry) (t : DataType) (s : Source) :
    (r.prepare t s).values ⊆ s.values := by
  unfold prepare
  split
  · exact values_collapse s
  · exact List.Subset.refl _

theorem prepare_of_not_textual (r : Registry) (t : DataType) {s : Source}
    (h : isTextual s = false) : r.prepare t s = s := by
  unfold prepare collapse
  rw [h]
  exact ite_self s

theorem get?_default_identifier (t : DataType) : default.get? t.identifier = some t :=
  get?_eq_some_iff.2 (.current List.not_mem_nil)

end Registry

inductive Value.Produced : Value → Prop
  | of {r : Registry} {identifier : String} {s : Source} {v : Value}
    (embedded : ∀ w ∈ s.values, Produced w) (made : r.convert identifier s = .ok v) : Produced v

namespace Value

theorem Produced.converted {v : Value} (h : v.Produced) : v.Converted := by
  induction h with
  | of embedded made ih =>
    obtain ⟨t, _, made⟩ := bind_eq_ok_iff.1 made
    exact .of (fun w mem => ih w (Registry.values_prepare _ t _ mem)) made

section
variable {r : Registry} {identifier : String}

end

end Value

namespace Attribute

end Attribute

end PolicyValues
