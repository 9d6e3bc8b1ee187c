import PolicyValues.Text.Basic

/-!
Ends of texts. Whether one text ends in another is told by their bytes, up to the case of ASCII
letters; what stands before an end is a text only where the cut goes between two characters.
-/
namespace PolicyValues.Text

def lowerByte (byte : UInt8) : UInt8 := if 65 ≤ byte ∧ byte ≤ 90 then byte + 32 else byte

def EndsBelow (cs ending : List Char) : Prop :=
  (bytes ending).length < (bytes cs).length ∧
    ((bytes cs).drop ((bytes cs).length - (bytes ending).length)).map lowerByte =
      (bytes ending).map lowerByte

instance (cs ending : List Char) : Decidable (EndsBelow cs ending) :=
  inferInstanceAs (Decidable (_ ∧ _))

def frontAt? (cs : List Char) (offset : Nat) : Option (List Char) :=
  (suffixAt? cs offset).map fun rest => cs.take (cs.length - rest.length)

theorem frontAt?_append (as bs : List Char) : frontAt? (as ++ bs) (byteLength as) = some as := by
  have front : (as ++ bs).length - bs.length = as.length := by
    rw [List.length_append, Nat.add_sub_cancel]
  rw [frontAt?, suffixAt?_append, Option.map_some, front, List.take_left]

end PolicyValues.Text
