import PolicyValues.Registry
import PolicyValues.Json.Basic

/-!
Values in JSON: truth values, whole numbers and finite doubles as themselves, all others as their
text. Texts, truth values and numbers are sources for any datatype.
-/
namespace PolicyValues

def Value.toJson : Value → Json
  | .boolean b => .bool b
  | .integer n => .integer n.toInt
  | .double x => if x.isFinite then .double x else .string x.text
  | v => .string v.text

/-- The source a JSON tree is; a whole number past 64 bits with sign is a double. -/
def Source.ofJson : Json → Except SourceKind Source
  | .string s => .ok (.text s)
  | .bool b => .ok (.boolean b)
  | .integer n =>
    if -2 ^ 63 ≤ n ∧ n < 2 ^ 63 then .ok (.integer (Int64.ofInt n)) else .ok (.double (.ofInt n))
  | .double x => .ok (.double x)
  | .null => .error .jsonNull
  | .array _ => .error .jsonArray
  | .object _ => .error .jsonObject

/-- What is no source at all is refused before the identifier is looked up. -/
def Registry.valueOfJson (r : Registry) (identifier : String) (j : Json) :
    Except ConversionError Value :=
  match Source.ofJson j with
  | .ok source => r.convert identifier source
  | .error kind => .error (.unsupported identifier kind)

end PolicyValues
