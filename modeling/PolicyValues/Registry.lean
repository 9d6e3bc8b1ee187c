import PolicyValues.Attribute
import PolicyValues.Settings

/-!
The registry: the identifiers that some settings admit, and conversion by identifier. A former
identifier stands for the current datatype, and goes when the datatype goes.
-/
namespace PolicyValues

structure Registry where
  settings : Settings
deriving DecidableEq, Repr

namespace Registry

def default : Registry := ⟨{}⟩

def enabled (r : Registry) (t : DataType) : Bool := !r.settings.disabled.contains t.identifier

def insertFormer (r : Registry) (entries : List DataType.Entry) (e : DataType.Entry) :
    List DataType.Entry :=
  if r.enabled e.dataType && !r.settings.disabled.contains e.identifier then
    DataType.insert entries e
  else entries

/-- A table with one entry for an identifier, in no order that matters. -/
def entries (r : Registry) : List DataType.Entry :=
  let current := (DataType.current.filter fun e => r.enabled e.dataType).foldl DataType.insert []
  if r.settings.legacyIdentifiers then DataType.former.foldl r.insertFormer current else current

def identifiers (r : Registry) : List String :=
  (r.entries.map (·.identifier)).mergeSort fun a b => a ≤ b

def size (r : Registry) : Nat := r.entries.length

def isEmpty (r : Registry) : Bool := r.size == 0

def get? (r : Registry) (identifier : String) : Option DataType :=
  (r.entries.find? (·.identifier = identifier)).map (·.dataType)

def contains (r : Registry) (identifier : String) : Bool :=
  r.entries.any (·.identifier = identifier)

def require (r : Registry) (identifier : String) : Except ConversionError DataType :=
  match r.get? identifier with
  | some t => .ok t
  | none => .error (.unknownDataType identifier)

def isCollapsible (c : Char) : Bool := c == ' ' || c == '\t' || c == '\n' || c == '\r'

def isTextual (s : Source) : Bool :=
  match s.flatten with
  | .text _ | .node _ _ | .sequence _ => true
  | _ => false

def collapse (s : Source) : Source :=
  if isTextual s then
    match s.text? with
    | some text =>
      let trimmed := String.ofList (Text.trim isCollapsible text.toList)
      if trimmed = text then s else .node trimmed s.category?
    | none => s
  else s

def prepare (r : Registry) (t : DataType) (s : Source) : Source :=
  if r.settings.collapseWhitespace && t != .string then collapse s else s

def convert (r : Registry) (identifier : String) (s : Source) : Except ConversionError Value := do
  let t ← r.require identifier
  t.convert (r.prepare t s)

/-- The attribute has the current datatype, by whichever identifier it was asked for. -/
def create (r : Registry) (identifier : String) (s : Source) : Except ConversionError Attribute := do
  let t ← r.require identifier
  t.createUnder s.category? (r.prepare t s)

end Registry

end PolicyValues
