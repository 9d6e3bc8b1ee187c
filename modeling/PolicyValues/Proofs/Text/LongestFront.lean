import PolicyValues.Proofs.Text.Viable

/-!
The longest front part of a text that has a property, and the bytes that it takes. The longest one
that begins a text of a grammar is the one that no next character continues so.
-/
namespace PolicyValues.Text

/-- The longest front part with a property takes `size` bytes. -/
structure LongestFront (p : String → Prop) (text : String) (size : ℕ) : Prop where
  reached : ∃ front back : String, text = front ++ back ∧ p front ∧ front.utf8ByteSize = size
  longest : ∀ front back : String, text = front ++ back → p front → front.utf8ByteSize ≤ size

namespace LongestFront

variable {p : String → Prop} {text : String} {front rest : List Char}

theorem of_suffix (split : text.toList = front ++ rest) (has : p (String.ofList front))
    (longest : ∀ other back, text.toList = other ++ back → p (String.ofList other) → rest <:+ back) :
    LongestFront p text (offsetOf text.toList rest) := by
  have size : offsetOf text.toList rest = byteLength front := by rw [split, offsetOf_append]
  rw [size]
  constructor
  · refine ⟨String.ofList front, String.ofList rest, ?_, has, ?_⟩
    · rw [← String.ofList_append, ← split, String.ofList_toList]
    · rw [← byteLength_toList, String.toList_ofList]
  · rintro other back same has'
    have chars : text.toList = other.toList ++ back.toList := by rw [same, String.toList_append]
    obtain ⟨more, behind⟩ := longest _ _ chars (by rwa [String.ofList_toList])
    have whole : front = other.toList ++ more := by
      rw [← behind, ← List.append_assoc, split] at chars
      exact List.append_cancel_right chars
    rw [← byteLength_toList, whole, byteLength_append]
    exact Nat.le_add_right _ _

/-- What can be completed to a text of a grammar ends where the next character does not belong. -/
theorem of_next {g : Language Char} (split : text.toList = front ++ rest) (begins : Begins g front)
    (stuck : ∀ c more, rest = c :: more → ¬Begins g (front ++ [c])) :
    LongestFront (fun front => Begins g front.toList) text (offsetOf text.toList rest) := by
  refine of_suffix split (by rwa [String.toList_ofList]) fun other back split' begins' => ?_
  rw [String.toList_ofList] at begins'
  rw [split, List.append_eq_append_iff] at split'
  rcases split' with ⟨more, rfl, rfl⟩ | ⟨more, -, rfl⟩
  · cases more with
    | nil => exact List.suffix_refl _
    | cons c more =>
      have next : Begins g (front ++ [c]) := by
        obtain ⟨behind, mem⟩ := begins'
        refine ⟨more ++ behind, ?_⟩
        rwa [List.append_assoc, List.singleton_append, ← List.cons_append, ← List.append_assoc]
      exact absurd next (stuck c (more ++ back) rfl)
  · exact List.suffix_append more rest

theorem eq_utf8ByteSize {size : ℕ} (h : LongestFront p text size) (whole : p text) :
    size = text.utf8ByteSize := by
  obtain ⟨front, back, same, -, rfl⟩ := h.reached
  refine Nat.le_antisymm ?_ (h.longest text "" (String.append_empty).symm whole)
  rw [same, String.utf8ByteSize_append]
  exact Nat.le_add_right _ _

end LongestFront

end PolicyValues.Text
