import PolicyValues.Toml.Draft
import PolicyValues.Toml.Scalar
import PolicyValues.Toml.Text

/-! Reading TOML documents: members one a line, under headers that open tables. -/
namespace PolicyValues.Toml

mutual

def readItem? : (steps depth : Nat) → List Char → Option (Toml × List Char)
  | 0, _, _ => none
  | steps + 1, depth, cs =>
    match cs, depth with
    | '"' :: _, _ => (readText? '"' cs).map fun (text, rest) => (.string text, rest)
    | '\'' :: _, _ => (readText? '\'' cs).map fun (text, rest) => (.string text, rest)
    | '[' :: _, 0 => none
    | '[' :: cs, depth + 1 => (readItems? steps depth cs).map fun (items, rest) => (.array items, rest)
    | '\x7b' :: _, 0 => none
    | '\x7b' :: cs, depth + 1 =>
      (readInline? steps depth [] cs).map fun (members, rest) =>
        (.table (Draft.finishMembers members), rest)
    | cs, _ => readScalar? cs

def readItems? : (steps depth : Nat) → List Char → Option (List Toml × List Char)
  | 0, _, _ => none
  | steps + 1, depth, cs =>
    match skipBlank cs with
    | ']' :: rest => some ([], rest)
    | cs => do
      let (item, cs) ← readItem? steps depth cs
      match skipBlank cs with
      | ',' :: cs =>
        let (items, rest) ← readItems? steps depth cs
        return (item :: items, rest)
      | ']' :: rest => return ([item], rest)
      | _ => none

def readInline? : (steps depth : Nat) → Draft.Members → List Char →
    Option (Draft.Members × List Char)
  | 0, _, _, _ => none
  | steps + 1, depth, members, cs =>
    match skipBlank cs with
    | '\x7d' :: rest => some (members, rest)
    | cs => do
      let (path, cs) ← readKey? cs
      let cs ← after? '=' (skipBlank cs)
      let (item, cs) ← readItem? steps depth (skipBlank cs)
      let members ← Draft.put? .strict item path members
      match skipBlank cs with
      | ',' :: cs => readInline? steps depth members cs
      | '\x7d' :: rest => return (members, rest)
      | _ => none

end

def lineEnd? (cs : List Char) : Option (List Char) :=
  match skipComment (skipSpace cs) with
  | [] => some []
  | cs => newline? cs

def readHeader? (brackets : Nat) (cs : List Char) : Option (List String × List Char) := do
  let (path, cs) ← readKey? cs
  if (List.replicate brackets ']').isPrefixOf cs then return (path, cs.drop brackets) else none

def readMember? (d : Dialect) (header : List String) (members : Draft.Members) (cs : List Char) :
    Option (Draft.Members × List Char) := do
  let (path, cs) ← readKey? cs
  let cs ← after? '=' cs
  let cs := skipSpace cs
  let (item, cs) ← readItem? (cs.length + 1) maxDepth cs
  return (← Draft.within? header (Draft.put? d item path) members, cs)

def readLines? (d : Dialect) : (steps : Nat) → (header : List String) → Draft.Members → List Char →
    Option Draft.Members
  | 0, _, _, _ => none
  | steps + 1, header, members, cs =>
    match skipBlank cs with
    | [] => some members
    | '[' :: '[' :: cs => do
      let (path, cs) ← readHeader? 2 cs
      let members ← Draft.openNext? path members
      readLines? d steps path members (← lineEnd? cs)
    | '[' :: cs => do
      let (path, cs) ← readHeader? 1 cs
      let members ← Draft.openTable? path members
      readLines? d steps path members (← lineEnd? cs)
    | cs => do
      let (members, cs) ← readMember? d header members cs
      readLines? d steps header members (← lineEnd? cs)

def withoutMark (text : String) : String :=
  match text.toList with
  | '\uFEFF' :: cs => String.ofList cs
  | _ => text

def parse? (d : Dialect) (text : String) : Option Table :=
  let cs := (withoutMark text).toList
  (readLines? d (cs.length + 1) [] [] cs).map Draft.finishMembers

end PolicyValues.Toml
