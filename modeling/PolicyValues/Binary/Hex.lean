import PolicyValues.Fault

/-! Byte strings written as two hexadecimal digits a byte, read in either case, shown in lower case. -/
namespace PolicyValues

structure HexBinary where
  bytes : List UInt8
deriving DecidableEq, Repr

namespace HexBinary

def digitValue? (byte : UInt8) : Option Nat := Text.hexValue? (Char.ofNat byte.toNat)

def digit (position : Nat) (byte : UInt8) : Except Malformation Nat :=
  match digitValue? byte with
  | some n => .ok n
  | none => .error (.hexCharacter byte position)

def pairs (position : Nat) : List UInt8 → Except Malformation (List UInt8)
  | high :: low :: rest => do
    let h ← digit position high
    let l ← digit (position + 1) low
    return UInt8.ofNat (16 * h + l) :: (← pairs (position + 2) rest)
  | _ => .ok []

def decode (symbols : List UInt8) : Except Malformation (List UInt8) :=
  if symbols.length % 2 = 1 then .error .hexLength else pairs 0 symbols

def parse (text : String) : Except ValueError HexBinary :=
  let symbols := Text.bytes text.toList
  match decode symbols with
  | .ok bytes => .ok ⟨bytes⟩
  | .error (.hexCharacter byte position) =>
    .error (.malformed .hexBinary text position (.hexCharacter byte position))
  | .error reason => .error (.malformed .hexBinary text symbols.length reason)

def byteChars (byte : UInt8) : List Char :=
  [Text.hexDigit (byte.toNat / 16), Text.hexDigit (byte.toNat % 16)]

def chars (x : HexBinary) : List Char := x.bytes.flatMap byteChars

def text (x : HexBinary) : String := String.ofList x.chars

instance : ToString HexBinary := ⟨text⟩

end HexBinary

end PolicyValues
