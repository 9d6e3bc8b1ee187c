import PolicyValues.Json.Number

/-! Reading JSON texts. Of two members with one key the later counts. -/
namespace PolicyValues.Json

def isSpace (c : Char) : Bool := c == ' ' || c == '\t' || c == '\n' || c == '\r'

def skipSpace (cs : List Char) : List Char := cs.dropWhile isSpace

def readUnit? : List Char → Option (Nat × List Char)
  | a :: b :: c :: d :: rest => do
    let a ← Text.hexValue? a
    let b ← Text.hexValue? b
    let c ← Text.hexValue? c
    let d ← Text.hexValue? d
    return (((a * 16 + b) * 16 + c) * 16 + d, rest)
  | _ => none

def readEscapedUnits? (cs : List Char) : Option (Char × List Char) := do
  let (high, cs) ← readUnit? cs
  if 0xDC00 ≤ high ∧ high ≤ 0xDFFF then none
  else if 0xD800 ≤ high ∧ high ≤ 0xDBFF then
    match cs with
    | '\\' :: 'u' :: cs =>
      let (low, cs) ← readUnit? cs
      if 0xDC00 ≤ low ∧ low ≤ 0xDFFF then
        return (Char.ofNat (0x10000 + (high - 0xD800) * 0x400 + (low - 0xDC00)), cs)
      else none
    | _ => none
  else return (Char.ofNat high, cs)

def readEscape? : List Char → Option (Char × List Char)
  | '"' :: cs => some ('"', cs)
  | '\\' :: cs => some ('\\', cs)
  | '/' :: cs => some ('/', cs)
  | 'b' :: cs => some ('\x08', cs)
  | 'f' :: cs => some ('\x0c', cs)
  | 'n' :: cs => some ('\n', cs)
  | 'r' :: cs => some ('\r', cs)
  | 't' :: cs => some ('\t', cs)
  | 'u' :: cs => readEscapedUnits? cs
  | _ => none

def readText? : (steps : Nat) → List Char → Option (List Char × List Char)
  | 0, _ => none
  | _ + 1, '"' :: cs => some ([], cs)
  | steps + 1, '\\' :: cs => do
    let (c, cs) ← readEscape? cs
    let (text, cs) ← readText? steps cs
    return (c :: text, cs)
  | steps + 1, c :: cs =>
    if c.toNat < 0x20 then none
    else (readText? steps cs).map fun (text, cs) => (c :: text, cs)
  | _ + 1, [] => none

def readString? (cs : List Char) : Option (String × List Char) :=
  (readText? cs.length cs).map fun (text, rest) => (String.ofList text, rest)

def readWord? (word : String) (item : Json) (cs : List Char) : Option (Json × List Char) :=
  if word.toList.isPrefixOf cs then some (item, cs.drop word.length) else none

mutual

def readItem? : (steps : Nat) → List Char → Option (Json × List Char)
  | 0, _ => none
  | steps + 1, cs =>
    match skipSpace cs with
    | 'n' :: cs => readWord? "ull" .null cs
    | 't' :: cs => readWord? "rue" (.bool true) cs
    | 'f' :: cs => readWord? "alse" (.bool false) cs
    | '"' :: cs => (readString? cs).map fun (s, rest) => (.string s, rest)
    | '[' :: cs =>
      match skipSpace cs with
      | ']' :: rest => some (.array [], rest)
      | cs => (readItems? steps cs).map fun (items, rest) => (.array items, rest)
    | '\x7b' :: cs =>
      match skipSpace cs with
      | '\x7d' :: rest => some (.object [], rest)
      | cs => (readMembers? steps [] cs).map fun (members, rest) => (.object members, rest)
    | cs => do
      let (numeral, rest) ← readNumeral? cs
      return (← numeral.toJson?, rest)

def readItems? : (steps : Nat) → List Char → Option (List Json × List Char)
  | 0, _ => none
  | steps + 1, cs => do
    let (item, cs) ← readItem? steps cs
    match skipSpace cs with
    | ',' :: cs =>
      let (items, rest) ← readItems? steps cs
      return (item :: items, rest)
    | ']' :: rest => return ([item], rest)
    | _ => none

def readMembers? : (steps : Nat) → List (String × Json) → List Char →
    Option (List (String × Json) × List Char)
  | 0, _, _ => none
  | steps + 1, members, cs =>
    match skipSpace cs with
    | '"' :: cs => do
      let (key, cs) ← readString? cs
      match skipSpace cs with
      | ':' :: cs =>
        let (item, cs) ← readItem? steps cs
        let members := insert key item members
        match skipSpace cs with
        | ',' :: cs => readMembers? steps members cs
        | '\x7d' :: rest => return (members, rest)
        | _ => none
      | _ => none
    | _ => none

end

def parse? (text : String) : Option Json :=
  let cs := text.toList
  match readItem? (cs.length + 1) cs with
  | some (item, rest) => if skipSpace rest = [] then some item else none
  | none => none

end PolicyValues.Json
