import PolicyValues.Json.Basic
import PolicyValues.Conversion

/-! What can be wrong with a JSON tree that should denote a value, and the commonest case: a text. -/
namespace PolicyValues

inductive JsonFault where
  | unexpected (found : Json) (expected : String)
  | missing (field : String)
  | length (length : Nat) (expected : String)
  | value (cause : ValueError)
  | conversion (cause : ConversionError)

def JsonFault.message : JsonFault → String
  | .unexpected found expected => s!"invalid type: {found.describe}, expected {expected}"
  | .missing field => s!"missing field `{field}`"
  | .length n expected => s!"invalid length {n}, expected {expected}"
  | .value cause => cause.message
  | .conversion cause => cause.message

namespace Json

def asText : Json → Except JsonFault String
  | string s => .ok s
  | other => .error (.unexpected other "a string")

def asOptionalText : Json → Except JsonFault (Option String)
  | null => .ok none
  | other => other.asText.map some

def decode {α : Type} (read : String → Except ValueError α) (j : Json) : Except JsonFault α := do
  match read (← j.asText) with
  | .ok value => return value
  | .error cause => throw (.value cause)

end Json

end PolicyValues
