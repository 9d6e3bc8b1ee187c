import PolicyValues.Text.Digits

/-!
Scanners that start at a byte offset of a text. They give nothing past the end or inside a
character, and report ends as byte offsets again.
-/
namespace PolicyValues.Scan
open Text

def digits (text : String) (offset width : Nat) : Option Nat :=
  if width = 0 then
    if offset ≤ byteLength text.toList then some 0 else none
  else do
    let cs ← suffixAt? text.toList offset
    let (value, _) ← Digits.fixed? width cs
    return value

def signedInt (text : String) (offset : Nat) : Option (Int × Nat) := do
  let cs ← suffixAt? text.toList offset
  let run ← Digits.signed? cs
  return (run.value, offsetOf text.toList run.rest)

def skipWhitespace (text : String) (offset : Nat) : Option Nat := do
  let cs ← suffixAt? text.toList offset
  match cs.dropWhile isBlank with
  | [] => none
  | c :: rest => some (offsetOf text.toList (c :: rest))

def unsignedDecimal (text : String) (offset : Nat) : Option (String × Nat) := do
  let cs ← suffixAt? text.toList offset
  let (number, rest) ← Digits.unsigned? cs
  return (String.ofList number.chars, offsetOf text.toList rest)

end PolicyValues.Scan
