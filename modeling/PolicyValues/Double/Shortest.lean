import PolicyValues.Double.Basic
import PolicyValues.Text.Digits

/-!
The fewest decimal digits that read back as a number. Everything between the midpoints to the two
neighbours reads back, the midpoints too if the mantissa is even. For one digit, two, and so on, the
two points of that decimal grid around the number are tried; the nearer one wins, of two equally
near ones the larger.
-/
namespace PolicyValues.Double

/-- Digits after a point, times a power of ten: `0.d₁d₂… * 10 ^ exponent`. -/
structure DecimalForm where
  digits : List Char
  exponent : Int
deriving DecidableEq, Repr

structure Interval where
  low : Nat
  value : Nat
  high : Nat
  denominator : Nat
  closed : Bool

def interval (x : Double) : Interval :=
  let m := x.mantissa
  let (up, down) := scaled 1 (x.exponent - 2)
  let below := if m = 2 ^ 52 ∧ 1 < x.exponentField then 1 else 2
  ⟨(4 * m - below) * up, 4 * m * up, (4 * m + 2) * up, down, m % 2 == 0⟩

def Interval.contains (i : Interval) (n d : Nat) : Bool :=
  if i.closed then i.low * d ≤ n * i.denominator && n * i.denominator ≤ i.high * d
  else i.low * d < n * i.denominator && n * i.denominator < i.high * d

/-- The exponent `k` with `10 ^ (k - 1) ≤ n / d < 10 ^ k`. -/
def decimalExponent (n d : Nat) : Int :=
  if d ≤ n then (Digits.ofNat (n / d)).length
  else 1 - (Digits.ofNat ((d - 1) / n)).length

def tenTo (e : Int) : Nat × Nat := (10 ^ e.toNat, 10 ^ (-e).toNat)

/-- The point of the grid of `count` digits that stands for the value, if one of the two reads back. -/
def gridPoint? (i : Interval) (exponent : Int) (count : Nat) : Option Nat :=
  let (up, down) := tenTo (exponent - count)
  let n := i.value * down
  let d := i.denominator * up
  let lower := n / d
  let upper := if n % d = 0 then lower else lower + 1
  match i.contains (lower * up) down, i.contains (upper * up) down with
  | true, true => if 2 * (n % d) < d then some lower else some upper
  | true, false => some lower
  | false, true => some upper
  | false, false => none

def firstPoint (i : Interval) (exponent : Int) : (tries count : Nat) → Nat × Nat
  | 0, count => ((gridPoint? i exponent count).getD 0, count)
  | tries + 1, count =>
    match gridPoint? i exponent count with
    | some point => (point, count)
    | none => firstPoint i exponent tries (count + 1)

def formOf (point count : Nat) (exponent : Int) : DecimalForm :=
  let ds := Digits.ofNat point
  ⟨Text.trimRight (· == '0') ds, exponent + (ds.length : Int) - count⟩

def shortest (x : Double) : DecimalForm :=
  let i := interval x
  let exponent := decimalExponent i.value i.denominator
  let (point, count) := firstPoint i exponent 16 1
  formOf point count exponent

end PolicyValues.Double
