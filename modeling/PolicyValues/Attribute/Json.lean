import PolicyValues.Value.Json
import PolicyValues.Json.Fault

/-!
Attributes in JSON: an object of the datatype's identifier, the value and, if there is one, the
category. The same three may be read by position from an array.
-/
namespace PolicyValues.Attribute

def toJson (a : Attribute) : Json :=
  let members := [("DataType", .string a.dataType.identifier), ("Value", a.value.toJson)]
  .object <| match a.category with
    | some category => ("Category", .string category) :: members
    | none => members

structure Written where
  dataType : String
  value : Json
  category : Option String

/-- Members are checked in the order of their keys; only then are missing ones missed. -/
def Written.ofMembers (members : List (String × Json)) : Except JsonFault Written := do
  let category ← match Json.member? members "Category" with
    | some item => item.asOptionalText
    | none => pure none
  let dataType ← match Json.member? members "DataType" with
    | some item => item.asText.map some
    | none => pure none
  match dataType, Json.member? members "Value" with
  | some dataType, some value => return ⟨dataType, value, category⟩
  | some _, none => throw (.missing "Value")
  | none, _ => throw (.missing "DataType")

def shapeName : String := "struct RawAttributeValue"

def tooShort (n : Nat) : JsonFault := .length n s!"{shapeName} with 3 elements"

def Written.ofItems : List Json → Except JsonFault Written
  | [] => throw (tooShort 0)
  | [dataType] => do
    discard dataType.asText
    throw (tooShort 1)
  | [dataType, value] => return ⟨← dataType.asText, value, none⟩
  | dataType :: value :: category :: more => do
    let dataType ← dataType.asText
    let category ← category.asOptionalText
    if more.isEmpty then return ⟨dataType, value, category⟩
    else throw (.length (3 + more.length) "fewer elements in array")

def Written.ofJson : Json → Except JsonFault Written
  | .object members => ofMembers members
  | .array items => ofItems items
  | other => throw (.unexpected other shapeName)

def ofJson (j : Json) : Except JsonFault Attribute := do
  let w ← Written.ofJson j
  let made : Except ConversionError Attribute := do
    let t ← Registry.default.require w.dataType
    return ⟨t, ← Registry.default.valueOfJson w.dataType w.value, w.category⟩
  match made with
  | .ok a => return a
  | .error cause => throw (.conversion cause)

end PolicyValues.Attribute
