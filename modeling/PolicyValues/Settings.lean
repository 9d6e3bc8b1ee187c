import PolicyValues.Text.Basic

/-! Settings: which datatypes are registered, and how sources are prepared. -/
namespace PolicyValues

structure Settings where
  legacyIdentifiers : Bool := true
  disabled : List String := []
  collapseWhitespace : Bool := false
deriving DecidableEq, Repr

inductive SettingsFault where
  | blankIdentifier
  | blankInIdentifier (identifier : String)
deriving DecidableEq, Repr

def SettingsFault.message : SettingsFault → String
  | .blankIdentifier => "Invalid configuration: registry.disabled contains an empty identifier"
  | .blankInIdentifier identifier =>
    s!"Invalid configuration: registry.disabled identifier '{identifier}' contains whitespace"

namespace Settings

def strict : Settings := { legacyIdentifiers := false }

def lenient : Settings := { collapseWhitespace := true }

def checkIdentifier (identifier : String) : Except SettingsFault Unit :=
  if identifier.toList.all Text.isBlank then .error .blankIdentifier
  else if identifier.toList.any Text.isBlank then .error (.blankInIdentifier identifier)
  else .ok ()

def validate (s : Settings) : Except SettingsFault Unit := s.disabled.forM checkIdentifier

end Settings

end PolicyValues
