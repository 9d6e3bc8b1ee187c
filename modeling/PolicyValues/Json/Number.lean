import PolicyValues.Json.Basic

/-!
Numbers of JSON texts. Their digits are gathered into a significand of 64 bits while it has room;
digits past that count as powers of ten before the point and for nothing behind it. The significand
becomes a double and is then multiplied or divided by the power of ten, rounding each time, so that
a number may come out next to the nearest double.
-/
namespace PolicyValues.Json

structure Numeral where
  negative : Bool
  whole : List Char
  fraction : Option (List Char)
  power : Option (Bool × List Char)
deriving DecidableEq, Repr

def gather (significand : Nat) : List Char → Nat × List Char
  | [] => (significand, [])
  | d :: ds =>
    let next := 10 * significand + (d.toNat - '0'.toNat)
    if next < 2 ^ 64 then gather next ds else (significand, d :: ds)

def shrink (x : Double) (places : Nat) : Double :=
  if h : places ≤ 308 then x.divSize (.ofNat (10 ^ places))
  else if x.isZero then x
  else shrink (x.divSize (.ofNat (10 ^ 308))) (places - 308)
termination_by places

def scale? (significand : Nat) (exponent : Int) : Option Double :=
  let x := Double.ofNat significand
  if exponent < 0 then some (shrink x exponent.natAbs)
  else if exponent ≤ 308 then
    let y := x.mulSize (.ofNat (10 ^ exponent.toNat))
    if y.isInfinite then none else some y
  else if x.isZero then some x
  else none

def clamp (exponent : Int) : Int := max (-2 ^ 31) (min exponent (2 ^ 31 - 1))

def raise? (significand : Nat) (exponent : Int) : Option (Bool × List Char) → Option Double
  | none => scale? significand exponent
  | some (down, ds) =>
    let size := Digits.value ds
    if size < 2 ^ 31 then
      scale? significand (clamp (if down then exponent - size else exponent + size))
    else if significand ≠ 0 ∧ ¬ down then none
    else some (.zero false)

def Numeral.toDouble? (w : Numeral) : Option Double :=
  let (head, dropped) := gather 0 w.whole
  let (significand, ignored) := gather head (w.fraction.getD [])
  let taken := (w.fraction.getD []).length - ignored.length
  (raise? significand (dropped.length - taken : Int) w.power).map fun x =>
    if w.negative then x.neg else x

/-- A whole number that fits 64 bits stays whole, except a negative zero. -/
def Numeral.whole? (w : Numeral) : Option Int :=
  if w.fraction.isSome || w.power.isSome then none
  else
    let size := Digits.value w.whole
    if w.negative then if 0 < size ∧ size ≤ 2 ^ 63 then some (-size) else none
    else if size < 2 ^ 64 then some size
    else none

def Numeral.toJson? (w : Numeral) : Option Json :=
  match w.whole? with
  | some n => some (.integer n)
  | none => w.toDouble?.map .double

def digitsAfter? (cs : List Char) : Option (List Char × List Char) :=
  match Digits.span cs with
  | ([], _) => none
  | (ds, rest) => some (ds, rest)

def readFraction? : List Char → Option (Option (List Char) × List Char)
  | '.' :: cs => (digitsAfter? cs).map fun (ds, rest) => (some ds, rest)
  | cs => some (none, cs)

def readPower? : List Char → Option (Option (Bool × List Char) × List Char)
  | c :: cs =>
    if c = 'e' ∨ c = 'E' then
      let (down, cs) := match cs with
        | '-' :: cs => (true, cs)
        | '+' :: cs => (false, cs)
        | cs => (false, cs)
      (digitsAfter? cs).map fun (ds, rest) => (some (down, ds), rest)
    else some (none, c :: cs)
  | [] => some (none, [])

def readNumeral? (cs : List Char) : Option (Numeral × List Char) := do
  let (negative, cs) := match cs with
    | '-' :: cs => (true, cs)
    | cs => (false, cs)
  let (whole, cs) ← digitsAfter? cs
  if whole.head? = some '0' ∧ whole.length ≠ 1 then none
  else
    let (fraction, cs) ← readFraction? cs
    let (power, cs) ← readPower? cs
    return (⟨negative, whole, fraction, power⟩, cs)

end PolicyValues.Json
