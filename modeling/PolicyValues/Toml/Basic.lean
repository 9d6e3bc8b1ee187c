import PolicyValues.Double.Reader

/-! TOML trees. Keys of a table are distinct; dates and times are kept as text. -/
namespace PolicyValues

inductive Toml where
  | string (text : String)
  | integer (n : Int)
  | float (x : Double)
  | boolean (b : Bool)
  | dateTime (text : String)
  | array (items : List Toml)
  | table (members : List (String × Toml))

namespace Toml

abbrev Table := List (String × Toml)

/-- How many parts a key may have, and how many arrays and tables in braces may stand in one another. -/
def maxDepth : Nat := 80

def isSpace (c : Char) : Bool := c == ' ' || c == '\t'

def isPlain (c : Char) : Bool := c == '\t' || (0x20 ≤ c.toNat && c.toNat != 0x7F)

def skipSpace (cs : List Char) : List Char := cs.dropWhile isSpace

def newline? : List Char → Option (List Char)
  | '\n' :: cs => some cs
  | '\r' :: '\n' :: cs => some cs
  | _ => none

def skipComment : List Char → List Char
  | '#' :: cs => cs.dropWhile isPlain
  | cs => cs

def skipLines : (steps : Nat) → List Char → List Char
  | 0, cs => cs
  | steps + 1, cs =>
    let cs := skipComment (skipSpace cs)
    match newline? cs with
    | some rest => skipLines steps rest
    | none => cs

def skipBlank (cs : List Char) : List Char := skipLines (cs.length + 1) cs

end Toml

end PolicyValues
