import PolicyValues.Value

/-!
What a datatype can be asked to convert. A sequence reads as one source: a single part stands for
itself, and several are read one after the other. Bytes have no text, nor has a sequence with bytes
anywhere in it.
-/
namespace PolicyValues

inductive Source where
  | text (text : String)
  | bytes (bytes : List UInt8)
  | integer (n : Int64)
  | double (x : Double)
  | boolean (b : Bool)
  | value (v : Value)
  /-- A text of a request document, with the category of the attribute it was found under. -/
  | node (text : String) (category : Option String)
  | sequence (parts : List Source)

inductive SourceKind where
  | text | bytes | integer | double | boolean | node | sequence
  | value (dataType : DataType)
  | jsonNull | jsonArray | jsonObject
deriving DecidableEq, Repr

def SourceKind.name : SourceKind → String
  | .text => "text"
  | .bytes => "bytes"
  | .integer => "integer"
  | .double => "double"
  | .boolean => "boolean"
  | .node => "node"
  | .sequence => "sequence"
  | .value t => t.name
  | .jsonNull => "JSON null"
  | .jsonArray => "JSON array"
  | .jsonObject => "JSON object"

namespace Source

def kind : Source → SourceKind
  | text _ => .text
  | bytes _ => .bytes
  | integer _ => .integer
  | double _ => .double
  | boolean _ => .boolean
  | value v => .value v.dataType
  | node _ _ => .node
  | sequence _ => .sequence

def flatten : Source → Source
  | sequence [s] => s.flatten
  | s => s

def category? (s : Source) : Option String :=
  match s.flatten with
  | node _ category => category
  | _ => none

mutual

def text? : Source → Option String
  | text s => some s
  | bytes _ => none
  | integer n => some (Value.integer n).text
  | double x => some x.text
  | boolean b => some (boolText b)
  | value v => some v.text
  | node s _ => some s
  | sequence parts => textOfParts? parts

def textOfParts? : List Source → Option String
  | [] => some ""
  | s :: rest =>
    match s.text?, textOfParts? rest with
    | some first, some more => some (first ++ more)
    | _, _ => none

end

mutual

def same : Source → Source → Bool
  | text a, text b => a == b
  | bytes a, bytes b => a == b
  | integer a, integer b => a == b
  | double a, double b => a.compare? b == some .eq
  | boolean a, boolean b => a == b
  | value a, value b => decide (a.Equal b)
  | node a c, node b d => a == b && c == d
  | sequence as, sequence bs => sameParts as bs
  | _, _ => false

def sameParts : List Source → List Source → Bool
  | [], [] => true
  | a :: as, b :: bs => same a b && sameParts as bs
  | _, _ => false

end

end Source

end PolicyValues
