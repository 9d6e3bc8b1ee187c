import PolicyValues.Toml.Scalar
import PolicyValues.Toml.Text

/-!
Paths into trees: members of tables by key and items of arrays by place. Acting on the end of a path
makes what is missing on the way and replaces what is in the way.
-/
namespace PolicyValues.Toml

def members : Toml → Table
  | table members => members
  | _ => []

def update (key : String) (f : Toml → Toml) : Table → Table
  | [] => [(key, f (.table []))]
  | (k, item) :: rest => if k = key then (k, f item) :: rest else (k, item) :: update key f rest

def items : Toml → List Toml
  | array items => items
  | _ => []

/-- Acts on the item at a place that counts from the end if below zero. Items that are missing on
the way to it count as empty tables. -/
def updateAt (place : Int) (f : Toml → Toml) (items : List Toml) : List Toml :=
  let length := items.length
  if 0 ≤ place then
    let missing := place.toNat + 1 - length
    (items ++ List.replicate missing (Toml.table [])).modify place.toNat f
  else if place.natAbs ≤ length then items.modify (length - place.natAbs) f
  else (List.replicate (place.natAbs - length) (Toml.table []) ++ items).modify 0 f

inductive Step where
  | member (key : String)
  | item (place : Int)
deriving DecidableEq, Repr

def readPlace? (cs : List Char) : Option (Int × List Char) := do
  let (negative, cs) := match skipSpace cs with
    | '-' :: cs => (true, cs)
    | cs => (false, cs)
  let (ds, rest) := Digits.span cs
  let size := Digits.value ds
  if ds = [] ∨ 2 ^ 63 ≤ size then none
  else return (if negative then -(size : Int) else size, ← after? ']' (skipSpace rest))

def readSteps? : (limit : Nat) → List Char → Option (List Step)
  | _, [] => some []
  | limit + 1, '.' :: cs =>
    match cs.takeWhile isBareChar with
    | [] => none
    | bare => do
      return .member (String.ofList bare) :: (← readSteps? limit (cs.dropWhile isBareChar))
  | limit + 1, '[' :: cs => do
    let (place, rest) ← readPlace? cs
    return .item place :: (← readSteps? limit rest)
  | _, _ => none

def path? (key : String) : Option (List Step) :=
  let cs := '.' :: key.toList
  readSteps? cs.length cs

def along (f : Toml → Toml) : List Step → Toml → Toml
  | [], item => f item
  | .member key :: path, item => .table (update key (along f path) item.members)
  | .item place :: path, item => .array (updateAt place (along f path) item.items)

end PolicyValues.Toml
