import PolicyValues.Settings
import PolicyValues.Toml.Reader

/-!
Settings in a document: two sections of named fields, which may also be given by position. What a
document does not say stays as it is by default, and what is not known is passed over.
-/
namespace PolicyValues

structure FieldReading where
  boolean? : Toml → Option Bool
  text? : Toml → Option String
  isEmptySection : Toml → Bool

namespace FieldReading

def strict : FieldReading where
  boolean?
    | .boolean b => some b
    | _ => none
  text?
    | .string s => some s
    | _ => none
  isEmptySection
    | .dateTime _ => true
    | _ => false

def truthWord? (word : String) : Option Bool :=
  let word := String.ofList (Text.lower word.toList)
  if word = "1" ∨ word = "true" ∨ word = "on" ∨ word = "yes" then some true
  else if word = "0" ∨ word = "false" ∨ word = "off" ∨ word = "no" then some false
  else none

/-- Numbers and words stand for truth values, and numbers and truth values for their texts. -/
def coercing : FieldReading where
  boolean?
    | .boolean b => some b
    | .integer n => some (n != 0)
    | .float x => some (!x.isZero)
    | .string s => truthWord? s
    | _ => none
  text?
    | .string s => some s
    | .boolean b => some (if b then "true" else "false")
    | .integer n => some (String.ofList (Digits.ofInt n))
    | .float x => some x.plainText
    | _ => none
  isEmptySection _ := false

def fields? (r : FieldReading) (names : List String) : Toml → Option (List (Option Toml))
  | .table members => some (names.map fun name => members.lookup name)
  | .array items => some ((List.range names.length).map (items[·]?))
  | item => if r.isEmptySection item then some (names.map fun _ => none) else none

def field? {α : Type} (read : Toml → Option α) (default : α) : Option Toml → Option α
  | none => some default
  | some item => read item

def list? (r : FieldReading) : Toml → Option (List String)
  | .array items => items.mapM r.text?
  | _ => none

end FieldReading

namespace Settings

def withRegistry? (r : FieldReading) (s : Settings) (item : Toml) : Option Settings := do
  match ← r.fields? ["legacy_identifiers", "disabled"] item with
  | [legacy, disabled] =>
    return { s with
      legacyIdentifiers := ← FieldReading.field? r.boolean? s.legacyIdentifiers legacy
      disabled := ← FieldReading.field? r.list? s.disabled disabled }
  | _ => none

def withConversion? (r : FieldReading) (s : Settings) (item : Toml) : Option Settings := do
  match ← r.fields? ["collapse_whitespace"] item with
  | [collapse] =>
    return { s with
      collapseWhitespace := ← FieldReading.field? r.boolean? s.collapseWhitespace collapse }
  | _ => none

def ofTable? (r : FieldReading) (document : Toml.Table) : Option Settings := do
  let s : Settings := {}
  let s ← match document.lookup "registry" with
    | some item => s.withRegistry? r item
    | none => some s
  match document.lookup "conversion" with
  | some item => s.withConversion? r item
  | none => some s

end Settings

inductive FileFault where
  | unreadable
  | unparsable
  | invalid (fault : SettingsFault)
deriving DecidableEq, Repr

def Settings.ofFile (text : Option String) : Except FileFault Settings :=
  match text with
  | none => .error .unreadable
  | some text =>
    match (Toml.parse? .strict text).bind (ofTable? .strict) with
    | none => .error .unparsable
    | some s =>
      match s.validate with
      | .ok () => .ok s
      | .error fault => .error (.invalid fault)

end PolicyValues
