import PolicyValues.Rounding

/-!
Binary floating point numbers of 64 bits, kept as their bits: a sign, eleven bits of exponent and
fifty-two of fraction. A finite number is `mantissa * 2 ^ exponent`; rounding is to nearest, ties
to the even mantissa, and past the largest finite number to infinity.
-/
namespace PolicyValues

structure Double where
  bits : UInt64
deriving DecidableEq, Repr

namespace Double

def negative (x : Double) : Bool := 2 ^ 63 ≤ x.bits.toNat

def sizeBits (x : Double) : Nat := x.bits.toNat % 2 ^ 63

def infinityBits : Nat := 2047 * 2 ^ 52

def ofSizeBits (negative : Bool) (size : Nat) : Double :=
  ⟨UInt64.ofNat (if negative then 2 ^ 63 + size else size)⟩

def infinity (negative : Bool) : Double := ofSizeBits negative infinityBits

def nan : Double := ofSizeBits false (infinityBits + 2 ^ 51)

def zero (negative : Bool) : Double := ofSizeBits negative 0

def isNaN (x : Double) : Bool := infinityBits < x.sizeBits

def isInfinite (x : Double) : Bool := x.sizeBits == infinityBits

def isFinite (x : Double) : Bool := x.sizeBits < infinityBits

def isZero (x : Double) : Bool := x.sizeBits == 0

def exponentField (x : Double) : Nat := x.sizeBits / 2 ^ 52

def mantissa (x : Double) : Nat :=
  if x.exponentField = 0 then x.sizeBits else 2 ^ 52 + x.sizeBits % 2 ^ 52

def exponent (x : Double) : Int := (max x.exponentField 1 : Nat) - 1075

def scaled (n : Nat) (e : Int) : Nat × Nat := (n * 2 ^ e.toNat, 2 ^ (-e).toNat)

def ratio (x : Double) : Nat × Nat := scaled x.mantissa x.exponent

/-- The exponent at which a positive fraction has a mantissa of 53 bits, or the least exponent. -/
def exponentOf (n d : Nat) : Int :=
  let guess : Int := (Nat.log2 n : Int) - Nat.log2 d
  let (a, b) := scaled d guess
  max (if a ≤ n * b then guess - 52 else guess - 53) (-1074)

def roundBits (n d : Nat) : Nat :=
  if n = 0 then 0
  else
    let e := exponentOf n d
    let (up, down) := scaled 1 e
    min ((e + 1074).toNat * 2 ^ 52 + divHalfEven (n * down) (d * up)) infinityBits

def ofRatio (negative : Bool) (n d : Nat) : Double := ofSizeBits negative (roundBits n d)

def ofNat (n : Nat) : Double := ofRatio false n 1

def neg (x : Double) : Double := ofSizeBits (!x.negative) x.sizeBits

def ofInt (n : Int) : Double := ofRatio (n < 0) n.natAbs 1

def mulSize (x y : Double) : Double :=
  ofRatio false (x.ratio.1 * y.ratio.1) (x.ratio.2 * y.ratio.2)

def divSize (x y : Double) : Double :=
  ofRatio false (x.ratio.1 * y.ratio.2) (x.ratio.2 * y.ratio.1)

/-- Sizes with their sign, in the order of the numbers; both zeros are 0. -/
def rank (x : Double) : Int := if x.negative then -(x.sizeBits : Int) else x.sizeBits

def compare? (x y : Double) : Option Ordering :=
  if x.isNaN || y.isNaN then none else some (Ord.compare x.rank y.rank)

end Double

end PolicyValues
