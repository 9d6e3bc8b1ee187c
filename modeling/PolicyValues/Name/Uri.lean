import PolicyValues.Fault

/-! URI references: texts of the characters of RFC 3986 and percent escapes, kept verbatim. -/
namespace PolicyValues

structure Uri where
  text : String
deriving DecidableEq, Repr

namespace Uri

def isUriChar (c : Char) : Bool := c.isAlphanum || "-._~:/?#[]@!$&'()*+,;=".toList.contains c

def check : List Char → Except Stop Unit
  | [] => .ok ()
  | '%' :: a :: b :: cs =>
    if Text.isHexDigit a && Text.isHexDigit b then check cs
    else .error (.malformed ('%' :: a :: b :: cs) .uriEscape)
  | c :: cs =>
    if c = '%' then .error (.malformed (c :: cs) .uriEscape)
    else if isUriChar c then check cs
    else .error (.malformed (c :: cs) .uriCharacter)

def parse (text : String) : Except ValueError Uri :=
  match check text.toList with
  | .ok () => .ok ⟨text⟩
  | .error stop => .error (stop.within .anyURI text.toList)

instance : ToString Uri := ⟨Uri.text⟩

def isSchemeChar (c : Char) : Bool := c.isAlphanum || c == '+' || c == '-' || c == '.'

def scheme? (u : Uri) : Option String :=
  match Text.splitFirst? ':' u.text.toList with
  | some (first :: more, _) =>
    if first.isAlpha && more.all isSchemeChar then some (String.ofList (first :: more)) else none
  | _ => none

def compare (a b : Uri) : Ordering := Ord.compare a.text b.text

end Uri

end PolicyValues
