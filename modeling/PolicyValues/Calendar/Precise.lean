import PolicyValues.Calendar.LocalTime

/-! Readings of finer clocks, to the nanosecond. They are cut to whole milliseconds before use. -/
namespace PolicyValues

def nanosPerMilli : Int := 1000000

structure PreciseTime where
  nanos : Int
  low : firstDay * millisPerDay * nanosPerMilli ≤ nanos
  high : nanos < (lastDay + 1) * millisPerDay * nanosPerMilli
deriving DecidableEq, Repr

namespace PreciseTime

def ofNanos? (nanos : Int) : Option PreciseTime :=
  if h : firstDay * millisPerDay * nanosPerMilli ≤ nanos ∧
      nanos < (lastDay + 1) * millisPerDay * nanosPerMilli then
    some ⟨nanos, h.1, h.2⟩
  else none

def toMillis (t : PreciseTime) : LocalTime where
  millis := t.nanos / nanosPerMilli
  low := by have := t.low; unfold firstDay millisPerDay nanosPerMilli at *; omega
  high := by have := t.high; unfold lastDay millisPerDay nanosPerMilli at *; omega

end PreciseTime

structure PreciseTimeOfDay where
  nanos : Nat
  bound : nanos < 86400000000000
deriving DecidableEq, Repr

namespace PreciseTimeOfDay

def ofNanos? (nanos : Nat) : Option PreciseTimeOfDay :=
  if h : nanos < 86400000000000 then some ⟨nanos, h⟩ else none

def toMillis (t : PreciseTimeOfDay) : TimeOfDay where
  millis := t.nanos / 1000000
  bound := by have := t.bound; omega

end PreciseTimeOfDay

end PolicyValues
