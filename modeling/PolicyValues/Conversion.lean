import PolicyValues.DataType.Members
import PolicyValues.Source
import PolicyValues.Value.Reader

/-!
Conversion of sources to values of a datatype, and what a datatype does with values: rendering them
and ordering them. A source that carries a value of the datatype already is used as it is; any other
is read as text.
-/
namespace PolicyValues

inductive ErrorKind where
  | malformed | outOfRange | ambiguousComparison | unsupportedSource
deriving DecidableEq, Repr

def ErrorKind.of : ValueError → ErrorKind
  | .malformed .. => .malformed
  | .outOfRange .. => .outOfRange
  | .ambiguous .. => .ambiguousComparison

inductive ConversionError where
  | unreadable (dataType : DataType) (source : SourceKind) (text : String) (cause : ValueError)
  | unsupported (identifier : String) (source : SourceKind)
  | foreignValue (dataType valueType : DataType)
  | unordered (dataType : DataType) (cause : ValueError)
  | unknownDataType (identifier : String)
deriving DecidableEq, Repr

namespace ConversionError

def cause? : ConversionError → Option ValueError
  | unreadable _ _ _ cause => some cause
  | unordered _ cause => some cause
  | _ => none

def kind (e : ConversionError) : ErrorKind :=
  match e.cause? with
  | some cause => .of cause
  | none => .unsupportedSource

def message : ConversionError → String
  | unreadable t source text cause =>
    s!"cannot convert {source.name} '{text}' to {t.identifier}: {cause.message}"
  | unsupported identifier source => s!"{identifier} cannot be built from a {source.name} source"
  | foreignValue t valueType => s!"{valueType.name} value does not belong to {t.identifier}"
  | unordered t cause => s!"cannot order {t.identifier} values: {cause.message}"
  | unknownDataType identifier => s!"unknown data type: {identifier}"

end ConversionError

namespace DataType

def carried? : DataType → Source → Option Value
  | t, .value v => if v.dataType = t then some v else none
  | boolean, .boolean b => some (.boolean b)
  | integer, .integer n => some (.integer n)
  | double, .double x => some (.double x)
  | hexBinary, .bytes bytes => some (.hexBinary ⟨bytes⟩)
  | base64Binary, .bytes bytes => some (.base64Binary ⟨bytes⟩)
  | _, _ => none

def convert (t : DataType) (source : Source) : Except ConversionError Value :=
  let s := source.flatten
  match t.carried? s with
  | some v => .ok v
  | none =>
    match s.text? with
    | none => .error (.unsupported t.identifier s.kind)
    | some text =>
      match t.read text with
      | .ok v => .ok v
      | .error cause => .error (.unreadable t s.kind text cause)

def own (t : DataType) (v : Value) : Except ConversionError t.Member :=
  match t.members.ofValue? v with
  | some x => .ok x
  | none => .error (.foreignValue t v.dataType)

def render (t : DataType) (v : Value) : Except ConversionError String :=
  (t.own v).map t.members.text

def compare (t : DataType) (a b : Value) : Except ConversionError (Option Ordering) := do
  let x ← t.own a
  let y ← t.own b
  (t.members.compare x y).mapError (.unordered t)

end DataType

end PolicyValues
