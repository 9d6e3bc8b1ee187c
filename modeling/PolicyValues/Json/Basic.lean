import PolicyValues.Double.Format
import PolicyValues.Text.Quoted

/-!
JSON trees. Whole numbers of 64 bits, with or without sign, are kept as they are; all other numbers
are doubles. Objects have their keys in ascending order, each once.
-/
namespace PolicyValues

inductive Json where
  | null
  | bool (b : Bool)
  | integer (n : Int)
  | double (x : Double)
  | string (s : String)
  | array (items : List Json)
  | object (members : List (String × Json))

namespace Json

def pointed (x : Double) : String :=
  let text := x.plainText
  if x.isFinite && !text.toList.contains '.' then text ++ ".0" else text

def describe : Json → String
  | null => "null"
  | bool b => "boolean `" ++ (if b then "true" else "false") ++ "`"
  | integer n => "integer `" ++ String.ofList (Digits.ofInt n) ++ "`"
  | double x => "floating point `" ++ pointed x ++ "`"
  | string s => "string " ++ Text.quoted s
  | array _ => "sequence"
  | object _ => "map"

def insert (key : String) (item : Json) : List (String × Json) → List (String × Json)
  | [] => [(key, item)]
  | (k, x) :: rest =>
    if key < k then (key, item) :: (k, x) :: rest
    else if key = k then (key, item) :: rest
    else (k, x) :: insert key item rest

def member? (members : List (String × Json)) (key : String) : Option Json := members.lookup key

end Json

end PolicyValues
