import PolicyValues.Fault

/-!
Byte strings in padded base64. Blanks between symbols do not count. Padding is required, and bits of
the last symbol that belong to no byte are zero, so that every byte string has one compact text.
-/
namespace PolicyValues

structure Base64Binary where
  bytes : List UInt8
deriving DecidableEq, Repr

namespace Base64Binary

def pad : UInt8 := 61

def symbolValue? (byte : UInt8) : Option Nat :=
  let n := byte.toNat
  if 65 ≤ n ∧ n ≤ 90 then some (n - 65)
  else if 97 ≤ n ∧ n ≤ 122 then some (n - 71)
  else if 48 ≤ n ∧ n ≤ 57 then some (n + 4)
  else if n = 43 then some 62
  else if n = 47 then some 63
  else none

def symbolChar (n : Nat) : Char :=
  if n < 26 then Char.ofNat (n + 65)
  else if n < 52 then Char.ofNat (n + 71)
  else if n < 62 then Char.ofNat (n - 4)
  else if n = 62 then '+'
  else '/'

def symbol (position : Nat) (byte : UInt8) : Except Malformation Nat :=
  match symbolValue? byte with
  | some n => .ok n
  | none => .error (.base64Symbol byte position)

def symbols (position : Nat) : List UInt8 → Except Malformation (List Nat)
  | [] => .ok []
  | byte :: rest => do
    let n ← symbol position byte
    return n :: (← symbols (position + 1) rest)

def unpack (a b c d : Nat) : List UInt8 :=
  [UInt8.ofNat (a * 4 + b / 16), UInt8.ofNat (b % 16 * 16 + c / 4), UInt8.ofNat (c % 4 * 64 + d)]

/-- The bytes of the symbols before the padding, whose spare bits have to be zero. -/
def unpackLast (position : Nat) (written : List UInt8) : List Nat → Except Malformation (List UInt8)
  | [a, b, c, d] => .ok (unpack a b c d)
  | [a, b, c] =>
    if c % 4 = 0 then .ok ((unpack a b c 0).take 2)
    else .error (.base64LastSymbol (written.getD 2 0) (position + 2))
  | [a, b] =>
    if b % 16 = 0 then .ok ((unpack a b 0 0).take 1)
    else .error (.base64LastSymbol (written.getD 1 0) (position + 1))
  | _ => .ok []

def decodeLast (position : Nat) (tail : List UInt8) : Except Malformation (List UInt8) := do
  let written := tail.takeWhile (· != pad)
  let padding := tail.dropWhile (· != pad)
  let values ← symbols position written
  if padding ≠ [] ∧ (written.length < 2 ∨ padding.any (· != pad) = true) then
    .error (.base64Symbol pad (position + written.length))
  else if tail = [] then .ok []
  else if written.length < 2 then .error (.base64Length (position + written.length))
  else if tail.length ≠ 4 then .error .base64Padding
  else unpackLast position written values

def decodeFrom (position : Nat) : List UInt8 → Except Malformation (List UInt8)
  | a :: b :: c :: d :: e :: rest => do
    let a ← symbol position a
    let b ← symbol (position + 1) b
    let c ← symbol (position + 2) c
    let d ← symbol (position + 3) d
    return unpack a b c d ++ (← decodeFrom (position + 4) (e :: rest))
  | tail => decodeLast position tail

def decode (compact : List UInt8) : Except Malformation (List UInt8) :=
  let last := compact.getLastD pad
  if compact.length % 4 = 1 ∧ last ≠ pad ∧ symbolValue? last = none then
    .error (.base64Symbol last (compact.length - 1))
  else decodeFrom 0 compact

def faultPosition (length : Nat) : Malformation → Nat
  | .base64Symbol _ position => position
  | .base64LastSymbol _ position => position
  | _ => length

def compact (cs : List Char) : List UInt8 := Text.bytes (cs.filter fun c => !Text.isAsciiBlank c)

/-- Places are those of the compact text, shown with the text as written. -/
def parse (text : String) : Except ValueError Base64Binary :=
  let compact := compact text.toList
  match decode compact with
  | .ok bytes => .ok ⟨bytes⟩
  | .error reason => .error (.malformed .base64Binary text (faultPosition compact.length reason) reason)

def encode : List UInt8 → List Char
  | [] => []
  | [x] => [symbolChar (x.toNat / 4), symbolChar (x.toNat % 4 * 16), '=', '=']
  | [x, y] =>
    [symbolChar (x.toNat / 4), symbolChar (x.toNat % 4 * 16 + y.toNat / 16),
      symbolChar (y.toNat % 16 * 4), '=']
  | x :: y :: z :: rest =>
    symbolChar (x.toNat / 4) :: symbolChar (x.toNat % 4 * 16 + y.toNat / 16) ::
      symbolChar (y.toNat % 16 * 4 + z.toNat / 64) :: symbolChar (z.toNat % 64) :: encode rest

def text (x : Base64Binary) : String := String.ofList (encode x.bytes)

instance : ToString Base64Binary := ⟨text⟩

end Base64Binary

end PolicyValues
