import PolicyValues.Double.Format
import PolicyValues.Fault

/-!
Reading numbers: an optional sign, digits with an optional point, at least one digit in all, and an
optional power of ten. The number nearest to what is written is meant.
-/
namespace PolicyValues.Double

structure Scientific where
  negative : Bool
  digits : List Char
  exponent : Int
deriving DecidableEq, Repr

def readSign : List Char → Bool × List Char
  | '-' :: cs => (true, cs)
  | '+' :: cs => (false, cs)
  | cs => (false, cs)

def readExponent? : List Char → Option Int
  | [] => some 0
  | c :: cs =>
    if c = 'e' ∨ c = 'E' then
      let (negative, cs) := readSign cs
      match Digits.span cs with
      | ([], _) => none
      | (ds, []) => some (if negative then -(Digits.value ds : Int) else Digits.value ds)
      | _ => none
    else none

def readScientific? (cs : List Char) : Option Scientific :=
  let (negative, cs) := readSign cs
  let (whole, cs) := Digits.span cs
  let (fraction, cs) := match cs with
    | '.' :: cs => Digits.span cs
    | cs => ([], cs)
  if whole = [] ∧ fraction = [] then none
  else (readExponent? cs).map fun e => ⟨negative, whole ++ fraction, e - fraction.length⟩

def Scientific.toDouble (w : Scientific) : Double :=
  let ds := w.digits.dropWhile (· == '0')
  let size := Digits.value ds
  let top := ds.length + w.exponent
  if size = 0 ∨ top < -330 then zero w.negative
  else if 310 < top then infinity w.negative
  else ofRatio w.negative (size * 10 ^ w.exponent.toNat) (10 ^ (-w.exponent).toNat)

def isNumberChar (c : Char) : Bool :=
  c.isDigit || c == '+' || c == '-' || c == '.' || c == 'e' || c == 'E'

/-- Only these spellings denote infinities and NaN. -/
def special? (text : String) : Option Double :=
  if text = "INF" ∨ text = "+INF" then some (infinity false)
  else if text = "-INF" then some (infinity true)
  else if text = "NaN" then some nan
  else none

def parse (text : String) : Except ValueError Double :=
  match special? text with
  | some x => .ok x
  | none =>
    let cs := text.toList
    match cs.dropWhile isNumberChar with
    | [] =>
      match readScientific? cs with
      | some w => .ok w.toDouble
      | none => .error (.malformed .double text 0 .doubleNumber)
    | rest => .error (.malformed .double text (Text.offsetOf cs rest) .doubleCharacter)

end PolicyValues.Double
