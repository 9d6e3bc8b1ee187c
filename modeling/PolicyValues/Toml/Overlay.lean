import PolicyValues.Toml.Path

/-!
Trees laid over one another: tables are merged member by member, and any other item replaces what
was there.
-/
namespace PolicyValues.Toml

mutual

def overlay : (upper lower : Toml) → Toml
  | table upper, lower => .table (overlayMembers upper lower.members)
  | upper, _ => upper

def overlayMembers : (upper lower : Table) → Table
  | [], lower => lower
  | (key, item) :: rest, lower => overlayMembers rest (update key (overlay item) lower)

end

def layerOver (layer lower : Table) : Table :=
  layer.foldl (fun lower (key, item) =>
    let steps := (path? key).getD [.member key]
    (along (overlay item) steps (.table lower)).members) lower

mutual

def plain? : Toml → Option Toml
  | integer n => if -2 ^ 63 ≤ n ∧ n < 2 ^ 63 then some (.integer n) else none
  | dateTime text => some (.string text)
  | array items => (plainItems? items).map .array
  | table members => (plainMembers? members).map .table
  | item => some item

def plainItems? : List Toml → Option (List Toml)
  | [] => some []
  | item :: rest => do return (← plain? item) :: (← plainItems? rest)

def plainMembers? : Table → Option Table
  | [] => some []
  | (key, item) :: rest => do return (key, ← plain? item) :: (← plainMembers? rest)

end

end PolicyValues.Toml
