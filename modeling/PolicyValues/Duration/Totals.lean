import PolicyValues.Duration.Reader

/-!
Durations of years and months alone, and of days and smaller units alone. Each is ordered by its
total, so that forms with and without carried units are equal; text shows the carried form.
-/
namespace PolicyValues

namespace Duration

def totalMonths (d : Duration) : Except ValueError Int64 :=
  let total := d.years.toNat * 12 + d.months.toNat
  if total < 2 ^ 63 then .ok (Int64.ofInt (d.sign * total))
  else .error (.outOfRange .duration .totalMonths)

def unitSeconds (n : UInt64) (unit : Nat) (h : unit < 2 ^ 32 := by decide) : Decimal where
  negative := false
  mantissa := n.toNat * unit
  scale := 0
  mantissa_lt := by
    have := Nat.mul_lt_mul'' n.toNat_lt h
    exact Nat.lt_of_lt_of_le this (by decide)
  scale_le := Decimal.zero.scale_le

def totalSeconds (d : Duration) : Except ValueError Decimal :=
  let total := do
    let sum ← (unitSeconds d.days 86400).add? (unitSeconds d.hours 3600)
    let sum ← sum.add? (unitSeconds d.minutes 60)
    sum.add? d.seconds
  match total with
  | some total => .ok (if d.negative then total.neg else total)
  | none => .error (.outOfRange .duration .totalSeconds)

end Duration

structure YearMonthDuration where
  duration : Duration
  totalMonths : Int64
deriving DecidableEq, Repr

namespace YearMonthDuration

def ofDuration (d : Duration) : Except ValueError YearMonthDuration :=
  if d.hasDayTime then .error (.malformed .yearMonthDuration d.text 0 .yearMonthOnly)
  else d.totalMonths.map (⟨d, ·⟩)

def new (negative : Bool) (years months : UInt64) : Except ValueError YearMonthDuration :=
  ofDuration (.signed negative { years, months })

def ofTotalMonths (total : Int64) : YearMonthDuration :=
  let size := total.toInt.natAbs
  ⟨.signed (total < 0) { years := UInt64.ofNat (size / 12), months := UInt64.ofNat (size % 12) }, total⟩

def canonical (d : YearMonthDuration) : YearMonthDuration := ofTotalMonths d.totalMonths

def negate (d : YearMonthDuration) : YearMonthDuration := ofTotalMonths (-d.totalMonths)

/-- A text with other components is blamed from its first `D` or `T` on. -/
def parse (text : String) : Except ValueError YearMonthDuration := do
  let d ← Duration.parse text
  if d.hasDayTime then
    let cs := text.toList
    .error (.malformed .yearMonthDuration text
      (Text.byteLength (cs.takeWhile fun c => c != 'D' && c != 'T')) .yearMonthOnly)
  else ofDuration d

def text (d : YearMonthDuration) : String := d.canonical.duration.text

instance : ToString YearMonthDuration := ⟨text⟩

def Equal (a b : YearMonthDuration) : Prop := a.totalMonths = b.totalMonths

instance (a b : YearMonthDuration) : Decidable (Equal a b) := inferInstanceAs (Decidable (_ = _))

def compare (a b : YearMonthDuration) : Ordering :=
  Ord.compare a.totalMonths.toInt b.totalMonths.toInt

end YearMonthDuration

structure DayTimeDuration where
  duration : Duration
  totalSeconds : Decimal
deriving DecidableEq, Repr

namespace DayTimeDuration

def ofDuration (d : Duration) : Except ValueError DayTimeDuration :=
  if d.hasYearMonth then .error (.malformed .dayTimeDuration d.text 0 .dayTimeOnly)
  else d.totalSeconds.map fun total => ⟨d, total.normalize⟩

def new (negative : Bool) (size : Magnitudes) : Except ValueError DayTimeDuration := do
  ofDuration (← Duration.new negative { size with years := 0, months := 0 })

def beyondMinutes (total : Decimal) : Decimal where
  negative := false
  mantissa := total.whole % 60 * 10 ^ total.scale + total.mantissa % 10 ^ total.scale
  scale := total.scale
  mantissa_lt := by
    refine Nat.lt_of_le_of_lt ?_ total.mantissa_lt
    conv => rhs; rw [← Nat.div_add_mod' total.mantissa (10 ^ total.scale)]
    exact Nat.add_le_add_right (Nat.mul_le_mul_right _ (Nat.mod_le _ _)) _
  scale_le := total.scale_le

/-- Seconds carried into minutes, hours and days; the fraction stays with the seconds. -/
def ofTotalSeconds (total : Decimal) : Except ValueError DayTimeDuration :=
  let whole := total.whole
  if 2 ^ 64 ≤ whole then .error (.outOfRange .dayTimeDuration .tooManySeconds)
  else
    let size : Magnitudes :=
      { days := UInt64.ofNat (whole / 86400)
        hours := UInt64.ofNat (whole % 86400 / 3600)
        minutes := UInt64.ofNat (whole % 3600 / 60)
        seconds := beyondMinutes total }
    .ok ⟨.signed total.negative size, total.normalize⟩

def canonical (d : DayTimeDuration) : Except ValueError DayTimeDuration :=
  ofTotalSeconds d.totalSeconds

def negate (d : DayTimeDuration) : DayTimeDuration := ⟨d.duration.negate, d.totalSeconds.neg⟩

def parse (text : String) : Except ValueError DayTimeDuration := do
  let d ← Duration.parse text
  if d.hasYearMonth then
    let cs := text.toList
    .error (.malformed .dayTimeDuration text
      (Text.byteLength (cs.takeWhile fun c => c != 'Y' && c != 'M')) .dayTimeOnly)
  else ofDuration d

def text (d : DayTimeDuration) : String :=
  match d.canonical with
  | .ok carried => carried.duration.text
  | .error _ => d.duration.text

instance : ToString DayTimeDuration := ⟨text⟩

def Equal (a b : DayTimeDuration) : Prop := a.totalSeconds.Equal b.totalSeconds

instance (a b : DayTimeDuration) : Decidable (Equal a b) := inferInstanceAs (Decidable (Decimal.Equal _ _))

def compare (a b : DayTimeDuration) : Ordering := a.totalSeconds.compare b.totalSeconds

inductive Millis where
  | exact (millis : Int64)
  | outside
  /-- A thousand totals have no decimal. -/
  | unrepresentable
deriving DecidableEq, Repr

def totalMillis (d : DayTimeDuration) : Millis :=
  let total := d.totalSeconds
  if 2 ^ 96 ≤ total.mantissa * 10 ^ (3 - total.scale) then .unrepresentable
  else
    let size := total.thousandths
    let millis : Int := if total.negative then -size else size
    if -2 ^ 63 ≤ millis ∧ millis < 2 ^ 63 then .exact (Int64.ofInt millis) else .outside

end DayTimeDuration

end PolicyValues
