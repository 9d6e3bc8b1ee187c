import PolicyValues.Settings.Document
import PolicyValues.Text.Lower
import PolicyValues.Toml.Overlay
import PolicyValues.Value.Reader

/-!
Settings from layers: the defaults, up to three files and the variables of the environment, each
layer over the ones before. Tables are merged member by member; any other item replaces what was
there.
-/
namespace PolicyValues

structure Variable where
  name : String
  value : String
deriving DecidableEq, Repr

namespace Variable

def key? (start : String) (v : Variable) : Option String :=
  let start := Text.lowerAll (start.toList ++ ['_'])
  let name := Text.lowerAll v.name.toList
  if start.isPrefixOf name then
    some (String.ofList (Text.joinPairs '_' '.' (name.drop start.length)))
  else none

def float? (text : String) : Option Double :=
  let cs := text.toList
  let (negative, unsigned) := Double.readSign cs
  let word := String.ofList (Text.lower unsigned)
  if word = "inf" ∨ word = "infinity" then some (.infinity negative)
  else if word = "nan" then some .nan
  else (Double.readScientific? cs).map (·.toDouble)

def listKey : String := "registry.disabled"

def item (key : String) (v : Variable) : Toml :=
  let word := String.ofList (Text.lower v.value.toList)
  if word = "true" then .boolean true
  else if word = "false" then .boolean false
  else match readInteger v.value, float? v.value with
    | .ok n, _ => .integer n.toInt
    | .error _, some x => .float x
    | .error _, none =>
      if key = listKey then
        .array ((Text.split ',' v.value.toList).map fun part => .string (String.ofList part))
      else .string v.value

/-- The layer of an environment; of two variables with one key the later counts. -/
def layer (start : String) (environment : List Variable) : Toml.Table :=
  environment.foldl (fun table v =>
    match v.key? start with
    | some key => Toml.update key (fun _ => v.item key) table
    | none => table) []

end Variable

structure Layers where
  user : Option String := none
  project : Option String := none
  localFile : Option String := none
  environment : List Variable := []
  start : String := "XACML"
deriving DecidableEq, Repr

inductive LoadFault where
  | syntaxError
  | typeMismatch
  | invalid (fault : SettingsFault)
deriving DecidableEq, Repr

def LoadFault.message : LoadFault → String
  | .syntaxError => "Failed to build configuration"
  | .typeMismatch => "Failed to deserialize configuration"
  | .invalid _ => "Configuration failed validation"

namespace Settings

def toTable (s : Settings) : Toml.Table :=
  [("registry", .table
      [("legacy_identifiers", .boolean s.legacyIdentifiers),
        ("disabled", .array (s.disabled.map .string))]),
    ("conversion", .table [("collapse_whitespace", .boolean s.collapseWhitespace)])]

def ofTables (tables : List Toml.Table) : Except LoadFault Settings :=
  let merged := tables.foldl (fun lower layer => Toml.layerOver layer lower) (toTable {})
  match ofTable? .coercing merged with
  | none => .error .typeMismatch
  | some s =>
    match s.validate with
    | .ok () => .ok s
    | .error fault => .error (.invalid fault)

def fileTable? (text : String) : Option Toml.Table :=
  (Toml.parse? .lenient (Toml.withoutMark text)).bind Toml.plainMembers?

def load (l : Layers) : Except LoadFault Settings :=
  match ([l.user, l.project, l.localFile].filterMap id).mapM fileTable? with
  | none => .error .syntaxError
  | some files => ofTables (files ++ [Variable.layer l.start l.environment])

def loadOrDefault (l : Layers) : Settings :=
  match load l with
  | .ok s => s
  | .error _ => {}

end Settings

end PolicyValues
