import PolicyValues.Conversion

/-! Attributes: values with the datatype that made them and the category they were found under. -/
namespace PolicyValues

structure Attribute where
  dataType : DataType
  value : Value
  category : Option String
deriving DecidableEq, Repr

namespace Attribute

def text (a : Attribute) : String := a.value.text

instance : ToString Attribute := ⟨text⟩

end Attribute

namespace DataType

def createUnder (t : DataType) (category : Option String) (s : Source) :
    Except ConversionError Attribute := do
  return ⟨t, ← t.convert s, category⟩

def create (t : DataType) (s : Source) : Except ConversionError Attribute :=
  t.createUnder s.category? s

end DataType

end PolicyValues
