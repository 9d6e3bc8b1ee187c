import PolicyValues.Decimal
import PolicyValues.Fault

/-!
Durations: unsigned magnitudes of six components under one sign. Only seconds have a fraction, and
it is kept exactly. A duration of no length is positive.
-/
namespace PolicyValues

structure Magnitudes where
  years : UInt64 := 0
  months : UInt64 := 0
  days : UInt64 := 0
  hours : UInt64 := 0
  minutes : UInt64 := 0
  seconds : Decimal := .zero
deriving DecidableEq, Repr

namespace Magnitudes

def isZero (m : Magnitudes) : Bool :=
  m.years == 0 && m.months == 0 && m.days == 0 && m.hours == 0 && m.minutes == 0 && m.seconds.isZero

def hasYearMonth (m : Magnitudes) : Bool := m.years != 0 || m.months != 0

def hasTime (m : Magnitudes) : Bool := m.hours != 0 || m.minutes != 0 || !m.seconds.isZero

def hasDayTime (m : Magnitudes) : Bool := m.days != 0 || m.hasTime

end Magnitudes

structure Duration extends Magnitudes where
  negative : Bool
  plain : toMagnitudes.seconds.Plain
  length_of_negative : negative = true → toMagnitudes.isZero = false
deriving DecidableEq, Repr

namespace Duration

/-- The sign is dropped where there is no length, and the seconds lose theirs and their padding. -/
def signed (negative : Bool) (size : Magnitudes) : Duration :=
  let size := { size with seconds := size.seconds.abs.normalize }
  { size with
    negative := negative && !size.isZero
    plain := Decimal.plain_normalize_abs _
    length_of_negative := fun h => by
      simp only [Bool.and_eq_true, Bool.not_eq_true'] at h; exact h.2 }

def zero : Duration := signed false {}

def new (negative : Bool) (size : Magnitudes) : Except ValueError Duration :=
  if size.seconds.negative && !size.seconds.isZero then
    .error (.outOfRange .duration (.negativeSeconds size.seconds.text))
  else .ok (signed negative size)

def ofSecondsMillis (negative : Bool) (whole : UInt64) (millis : UInt32) : Duration :=
  have bound : whole.toNat * 1000 + millis.toNat < 2 ^ 96 := by
    have := whole.toNat_lt; have := millis.toNat_lt; omega
  signed negative { seconds := ⟨false, whole.toNat * 1000 + millis.toNat, 3, bound, by decide⟩ }

def sign (d : Duration) : Int := if d.negative then -1 else 1

def isZero (d : Duration) : Bool := d.toMagnitudes.isZero

def negate (d : Duration) : Duration := signed (!d.negative) d.toMagnitudes

def wholeSeconds (d : Duration) : Nat := min d.seconds.whole (2 ^ 64 - 1)

def millis (d : Duration) : Nat := d.seconds.fraction.thousandths

def componentChars (n : UInt64) (designator : Char) : List Char :=
  if n = 0 then [] else Digits.ofNat n.toNat ++ [designator]

def timeChars (d : Duration) : List Char :=
  if d.hasTime then
    'T' :: (componentChars d.hours 'H' ++ componentChars d.minutes 'M' ++
      if d.seconds.isZero then [] else d.seconds.chars ++ ['S'])
  else []

/-- Components of no size are left out; no length at all is `PT0S`. -/
def chars (d : Duration) : List Char :=
  if d.isZero then ['P', 'T', '0', 'S']
  else
    (if d.negative then ['-'] else []) ++ 'P' ::
      (componentChars d.years 'Y' ++ componentChars d.months 'M' ++ componentChars d.days 'D' ++
        d.timeChars)

def text (d : Duration) : String := String.ofList d.chars

instance : ToString Duration := ⟨text⟩

end Duration

end PolicyValues
