import PolicyValues.Double.Shortest

/-!
The texts of a number. The canonical one shows the shortest digits, with a point and at least one
place behind it from 0.0001 up to 10 ^ 16, with a power of ten elsewhere. The plain one never shows
a power of ten and no place behind the point without need.
-/
namespace PolicyValues.Double

def DecimalForm.split (f : DecimalForm) : List Char × List Char :=
  if f.exponent ≤ 0 then (['0'], List.replicate (-f.exponent).toNat '0' ++ f.digits)
  else
    let whole := f.digits.take f.exponent.toNat
    (whole ++ List.replicate (f.exponent.toNat - f.digits.length) '0', f.digits.drop f.exponent.toNat)

def DecimalForm.scientific (f : DecimalForm) : List Char :=
  f.digits.take 1 ++ (if f.digits.drop 1 = [] then [] else '.' :: f.digits.drop 1) ++
    'e' :: Digits.ofInt (f.exponent - 1)

def withSign (x : Double) (cs : List Char) : List Char := if x.negative then '-' :: cs else cs

def form (x : Double) : DecimalForm := if x.isZero then ⟨['0'], 1⟩ else x.shortest

def positional (f : DecimalForm) : List Char :=
  let (whole, fraction) := f.split
  whole ++ '.' :: if fraction = [] then ['0'] else fraction

def finiteChars (x : Double) : List Char :=
  let f := x.form
  x.withSign (if -3 ≤ f.exponent ∧ f.exponent ≤ 16 then positional f else f.scientific)

def text (x : Double) : String :=
  if x.isNaN then "NaN"
  else if x.isInfinite then if x.negative then "-INF" else "INF"
  else String.ofList x.finiteChars

instance : ToString Double := ⟨text⟩

def plainText (x : Double) : String :=
  if x.isNaN then "NaN"
  else if x.isInfinite then if x.negative then "-inf" else "inf"
  else
    let (whole, fraction) := x.form.split
    String.ofList (x.withSign (whole ++ if fraction = [] then [] else '.' :: fraction))

end PolicyValues.Double
