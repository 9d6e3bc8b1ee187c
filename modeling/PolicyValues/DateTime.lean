import PolicyValues.Calendar.Precise
import PolicyValues.Zone
import PolicyValues.Duration.Totals

/-!
Dates with a time of day, on a clock of a known zone or on one of unknown zone, called floating.
Instants of two clocks of one kind are ordered by the instant. A floating clock may run up to 14
hours from UTC, so across kinds only instants further apart than that are ordered.
-/
namespace PolicyValues

structure DateTime where
  wall : LocalTime
  zone : Option Zone
deriving DecidableEq, Repr

inductive Era where
  | bc | ad
deriving DecidableEq, Repr

def Era.name : Era → String
  | bc => "BC"
  | ad => "AD"

def eraOf (year : Int) : Era := if year ≤ 0 then .bc else .ad

def yearOfEra (year : Int) : Nat := if year ≤ 0 then year.natAbs + 1 else year.natAbs

namespace DateTime

def ofFields (fields : ClockFields) (zone : Option Zone) : Except ValueError DateTime :=
  (fields.check .dateTime).map (⟨·, zone⟩)

def year (d : DateTime) : Int := d.wall.date.year

def withZone (d : DateTime) (zone : Option Zone) : DateTime := { d with zone }

/-- Milliseconds since 1970-01-01T00:00:00Z; a floating clock is read as UTC. -/
def epochMillis (d : DateTime) : Int :=
  match d.zone with
  | some zone => d.wall.millis - zone.minutes * 60000
  | none => d.wall.millis

def toUtc (d : DateTime) : Except ValueError DateTime :=
  match d.zone with
  | none => .ok d
  | some zone =>
    match d.wall.shift? (-(zone.minutes * 60000)) with
    | some wall => .ok ⟨wall, some .utc⟩
    | none => .error (.outOfRange .dateTime .normalization)

def dateChars (date : CivilDate) : List Char :=
  yearChars date.year ++ '-' :: Digits.padded 2 date.month ++ '-' :: Digits.padded 2 date.day

def zoneChars : Option Zone → List Char
  | some zone => zone.chars
  | none => []

def wallChars (d : DateTime) : List Char :=
  dateChars d.wall.date ++ 'T' :: d.wall.timeOfDay.chars

def chars (d : DateTime) : List Char := d.wallChars ++ zoneChars d.zone

def text (d : DateTime) : String := String.ofList d.chars

instance : ToString DateTime := ⟨text⟩

def readDate : Reader (Int × Nat × Nat) := fun cs => do
  let (year, cs) ← Reader.signed 4 "year" cs
  let (_, cs) ← Reader.mark '-' "between year and month" cs
  let (month, cs) ← Reader.digits 2 "month" cs
  let (_, cs) ← Reader.mark '-' "between month and day" cs
  let (day, cs) ← Reader.digits 2 "day" cs
  return ((year, month, day), cs)

def readMillis : Reader Nat
  | '.' :: cs => do
    let (millis, cs) ← Reader.digits 3 "millisecond" cs
    if cs.head?.any Char.isDigit then .error (.malformed cs .fractionLength) else .ok (millis, cs)
  | cs => .ok (0, cs)

def readTime : Reader (Nat × Nat × Nat × Nat) := fun cs => do
  let (hour, cs) ← Reader.digits 2 "hour" cs
  let (_, cs) ← Reader.mark ':' "between hour and minute" cs
  let (minute, cs) ← Reader.digits 2 "minute" cs
  let (_, cs) ← Reader.mark ':' "between minute and second" cs
  let (second, cs) ← Reader.digits 2 "second" cs
  let (millis, cs) ← readMillis cs
  return ((hour, minute, second, millis), cs)

def readFields : Reader (ClockFields × Option Zone × Int) := fun cs => do
  let ((year, month, day), cs) ← readDate cs
  let (_, cs) ← Reader.mark 'T' "between date and time" cs
  let ((hour, minute, second, millisecond), cs) ← readTime cs
  let (zone, cs) ← Zone.readOptional cs
  return (({ year, month, day, hour, minute, second, millisecond }, zone), cs)

/-- Fields written against a raw offset move by whole days with its zone, and keep the instant. -/
def ofWritten (subject : Subject) (fields : ClockFields) (zone : Option Zone) (days : Int) :
    Except ValueError DateTime := do
  let wall ← fields.check subject
  match wall.shift? (days * millisPerDay) with
  | some wall => .ok ⟨wall, zone⟩
  | none => .error (.outOfRange subject .zoneShift)

def parse (text : String) : Except ValueError DateTime :=
  match Reader.whole readFields text.toList with
  | .error stop => .error (stop.within .dateTime text.toList)
  | .ok (fields, zone, days) => ofWritten .dateTime fields zone days

def tooFar (field : String) : ValueError := .outOfRange .dateTime (.adding field)

def addMonths (months : Nat) (sign : Int) (wall : LocalTime) : Except ValueError LocalTime :=
  if months = 0 then .ok wall
  else if 2 ^ 32 ≤ months then .error (tooFar "months")
  else
    match wall.addMonths? (sign * months) with
    | some wall => .ok wall
    | none => .error (tooFar "months")

inductive ClockUnit where
  | days | hours | minutes | seconds | milliseconds
deriving DecidableEq, Repr

def ClockUnit.name : ClockUnit → String
  | days => "days"
  | hours => "hours"
  | minutes => "minutes"
  | seconds => "seconds"
  | milliseconds => "milliseconds"

def ClockUnit.millis : ClockUnit → Nat
  | days => 86400000
  | hours => 3600000
  | minutes => 60000
  | seconds => 1000
  | milliseconds => 1

/-- Units of time added with a sign. Both their count and the time they take keep below 64 bits. -/
def addUnits (unit : ClockUnit) (count : Nat) (sign : Int) (wall : LocalTime) :
    Except ValueError LocalTime :=
  if count = 0 then .ok wall
  else if 2 ^ 63 ≤ count then .error (tooFar unit.name)
  else if 2 ^ 63 ≤ count * unit.millis then .error (tooFar unit.name)
  else
    match wall.shift? (sign * ((count * unit.millis : Nat) : Int)) with
    | some wall => .ok wall
    | none => .error (tooFar unit.name)

def addYears (years : Nat) (sign : Int) (wall : LocalTime) : Except ValueError LocalTime :=
  if 2 ^ 64 ≤ years * 12 then .error (tooFar "years") else addMonths (years * 12) sign wall

/-- Component after component, from years down to milliseconds; each step stays in the calendar. -/
def move (d : DateTime) (u : Duration) (sign : Int) : Except ValueError DateTime := do
  let wall ← addYears u.years.toNat sign d.wall
  let wall ← addMonths u.months.toNat sign wall
  let wall ← addUnits .days u.days.toNat sign wall
  let wall ← addUnits .hours u.hours.toNat sign wall
  let wall ← addUnits .minutes u.minutes.toNat sign wall
  let wall ← addUnits .seconds u.wholeSeconds sign wall
  let wall ← addUnits .milliseconds u.millis sign wall
  return { d with wall }

def add (d : DateTime) (u : Duration) : Except ValueError DateTime := d.move u u.sign

def sub (d : DateTime) (u : Duration) : Except ValueError DateTime := d.move u (-u.sign)

def addYearMonth (d : DateTime) (u : YearMonthDuration) : Except ValueError DateTime := d.add u.duration

def subYearMonth (d : DateTime) (u : YearMonthDuration) : Except ValueError DateTime := d.sub u.duration

def addDayTime (d : DateTime) (u : DayTimeDuration) : Except ValueError DateTime := d.add u.duration

def subDayTime (d : DateTime) (u : DayTimeDuration) : Except ValueError DateTime := d.sub u.duration

def bandMillis : Int := 14 * 60 * 60 * 1000

def compareMixed (zoned floating : DateTime) : Except ValueError Ordering :=
  let delta := zoned.epochMillis - floating.epochMillis
  if bandMillis < delta.natAbs then .ok (Ord.compare delta 0)
  else .error (.ambiguous zoned.text floating.text)

def compare (a b : DateTime) : Except ValueError Ordering :=
  match a.zone, b.zone with
  | some _, none => compareMixed a b
  | none, some _ => (compareMixed b a).map Ordering.swap
  | _, _ => .ok (Ord.compare a.epochMillis b.epochMillis)

end DateTime

/-- An instant shown on a clock at a fixed offset of whole seconds, which has to be able to show it. -/
structure OffsetInstant where
  utc : LocalTime
  offset : Int
  wall : LocalTime
  wall_eq : wall.millis = utc.millis + 1000 * offset

namespace OffsetInstant

def of? (utc : LocalTime) (offset : Int) : Option OffsetInstant :=
  if h : firstDay * millisPerDay ≤ utc.millis + 1000 * offset ∧
      utc.millis + 1000 * offset < (lastDay + 1) * millisPerDay then
    some ⟨utc, offset, ⟨utc.millis + 1000 * offset, h.1, h.2⟩, rfl⟩
  else none

end OffsetInstant

def DateTime.ofOffset (instant : OffsetInstant) : Except ValueError DateTime :=
  match Zone.canonicalize? (instant.offset.tdiv 60) with
  | none => .error (.outOfRange .timeZone (.zoneOffset (instant.offset.tdiv 60)))
  | some (zone, days) =>
    match instant.wall.shift? (days * millisPerDay) with
    | some wall => .ok ⟨wall, some zone⟩
    | none => .error (.outOfRange .dateTime .zoneShift)

def DateTime.ofPrecise (reading : PreciseTime) (zone : Option Zone) : DateTime :=
  ⟨reading.toMillis, zone⟩

def OffsetInstant.ofPrecise? (utc : PreciseTime) (offset : Int) : Option OffsetInstant :=
  of? utc.toMillis offset

end PolicyValues
