import PolicyValues.Toml.Basic

/-!
Texts of TOML: in double quotes with escapes or in single quotes without, on one line or, in three
quotes, on many.
-/
namespace PolicyValues.Toml

def readHex? : (count value : Nat) → List Char → Option (Nat × List Char)
  | 0, value, cs => some (value, cs)
  | count + 1, value, c :: cs => do readHex? count (16 * value + (← Text.hexValue? c)) cs
  | _ + 1, _, [] => none

def readNumbered? (count : Nat) (cs : List Char) : Option (Char × List Char) := do
  let (n, cs) ← readHex? count 0 cs
  if n.isValidChar then return (Char.ofNat n, cs) else none

def readEscape? : List Char → Option (Char × List Char)
  | 'b' :: cs => some ('\x08', cs)
  | 't' :: cs => some ('\t', cs)
  | 'n' :: cs => some ('\n', cs)
  | 'f' :: cs => some ('\x0c', cs)
  | 'r' :: cs => some ('\r', cs)
  | 'e' :: cs => some ('\x1b', cs)
  | '"' :: cs => some ('"', cs)
  | '\\' :: cs => some ('\\', cs)
  | 'x' :: cs => readNumbered? 2 cs
  | 'u' :: cs => readNumbered? 4 cs
  | 'U' :: cs => readNumbered? 8 cs
  | _ => none

def readShort? (quote : Char) : (steps : Nat) → List Char → Option (List Char × List Char)
  | 0, _ => none
  | _ + 1, [] => none
  | steps + 1, c :: cs =>
    if c = quote then some ([], cs)
    else if quote = '"' ∧ c = '\\' then do
      let (c, cs) ← readEscape? cs
      let (text, rest) ← readShort? quote steps cs
      return (c :: text, rest)
    else if isPlain c then (readShort? quote steps cs).map fun (text, rest) => (c :: text, rest)
    else none

def closing? (quote : Char) (cs : List Char) : Option (List Char × List Char) :=
  let run := (cs.takeWhile (· == quote)).length
  if run < 3 then none
  else
    let inner := min (run - 3) 2
    some (List.replicate inner quote, cs.drop (inner + 3))

def skipEmptyLines : List Char → List Char
  | '\r' :: '\n' :: cs => skipEmptyLines cs
  | c :: cs => if isSpace c || c == '\n' then skipEmptyLines cs else c :: cs
  | [] => []

def continued? (cs : List Char) : Option (List Char) :=
  (newline? (skipSpace cs)).map skipEmptyLines

def readLong? (quote : Char) : (steps : Nat) → List Char → Option (List Char × List Char)
  | 0, _ => none
  | steps + 1, cs =>
    match closing? quote cs, cs with
    | some closed, _ => some closed
    | none, [] => none
    | none, c :: cs =>
      if quote = '"' ∧ c = '\\' then
        match continued? cs with
        | some rest => readLong? quote steps rest
        | none => do
          let (c, cs) ← readEscape? cs
          let (text, rest) ← readLong? quote steps cs
          return (c :: text, rest)
      else if isPlain c || (newline? (c :: cs)).isSome then
        (readLong? quote steps cs).map fun (text, rest) => (c :: text, rest)
      else none

def readText? (quote : Char) (cs : List Char) : Option (String × List Char) :=
  let read := match cs with
    | a :: b :: c :: rest =>
      if a = quote ∧ b = quote ∧ c = quote then
        readLong? quote (rest.length + 1) ((newline? rest).getD rest)
      else readShort? quote cs.length (cs.drop 1)
    | _ => readShort? quote cs.length (cs.drop 1)
  read.map fun (text, rest) => (String.ofList text, rest)

def isBareChar (c : Char) : Bool := c.isAlphanum || c == '-' || c == '_'

def readKeyPart? (cs : List Char) : Option (String × List Char) :=
  match cs with
  | '"' :: rest => (readShort? '"' cs.length rest).map fun (text, rest) => (String.ofList text, rest)
  | '\'' :: rest => (readShort? '\'' cs.length rest).map fun (text, rest) => (String.ofList text, rest)
  | _ =>
    match cs.takeWhile isBareChar with
    | [] => none
    | bare => some (String.ofList bare, cs.dropWhile isBareChar)

def readParts? : (limit : Nat) → List Char → Option (List String × List Char)
  | 0, _ => none
  | limit + 1, cs => do
    let (part, cs) ← readKeyPart? (skipSpace cs)
    match skipSpace cs with
    | '.' :: cs =>
      let (parts, rest) ← readParts? limit cs
      return (part :: parts, rest)
    | rest => return ([part], rest)

def readKey? (cs : List Char) : Option (List String × List Char) := readParts? maxDepth cs

end PolicyValues.Toml
