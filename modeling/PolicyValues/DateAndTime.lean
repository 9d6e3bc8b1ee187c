import PolicyValues.DateTime

/-!
Dates and times of day, both kept as instants. A date is a midnight and drops what arithmetic leaves
of a time; a time of day lies on 1970-01-01 and drops what arithmetic leaves of a date.
-/
namespace PolicyValues

structure Date extends DateTime where
  midnight : wall.timeOfDay = .midnight
deriving DecidableEq, Repr

namespace Date

def ofDateTime (d : DateTime) : Date where
  wall := .ofDay d.wall.day .midnight
  zone := d.zone
  midnight := LocalTime.timeOfDay_ofDay d.wall.day .midnight

def ofFields (year : Int) (month day : Nat) (zone : Option Zone) : Except ValueError Date :=
  (({ year, month, day } : ClockFields).check .date).map fun wall => ofDateTime ⟨wall, zone⟩

def ofDay (day : Day) : Date := ofDateTime ⟨.ofDay day .midnight, none⟩

def civil (d : Date) : CivilDate := d.wall.date

def plainChars (d : Date) : List Char :=
  d.wallChars.take (d.wallChars.length - "T00:00:00".length)

def chars (d : Date) : List Char := d.plainChars ++ DateTime.zoneChars d.zone

def text (d : Date) : String := String.ofList d.chars

instance : ToString Date := ⟨text⟩

def readFields : Reader (ClockFields × Option Zone × Int) := fun cs => do
  let ((year, month, day), cs) ← DateTime.readDate cs
  let (zone, cs) ← Zone.readOptional cs
  return (({ year, month, day }, zone), cs)

def parse (text : String) : Except ValueError Date :=
  match Reader.whole readFields text.toList with
  | .error stop => .error (stop.within .date text.toList)
  | .ok (fields, zone, days) => (DateTime.ofWritten .date fields zone days).map ofDateTime

def add (d : Date) (u : Duration) : Except ValueError Date := (d.toDateTime.add u).map ofDateTime

def sub (d : Date) (u : Duration) : Except ValueError Date := (d.toDateTime.sub u).map ofDateTime

def addYearMonth (d : Date) (u : YearMonthDuration) : Except ValueError Date := d.add u.duration

def subYearMonth (d : Date) (u : YearMonthDuration) : Except ValueError Date := d.sub u.duration

def addDayTime (d : Date) (u : DayTimeDuration) : Except ValueError Date := d.add u.duration

def subDayTime (d : Date) (u : DayTimeDuration) : Except ValueError Date := d.sub u.duration

def compare (a b : Date) : Except ValueError Ordering := a.toDateTime.compare b.toDateTime

end Date

structure Time extends DateTime where
  pinned : wall.day = .epoch
deriving DecidableEq, Repr

namespace Time

def ofDateTime (d : DateTime) : Time where
  wall := .ofDay .epoch d.wall.timeOfDay
  zone := d.zone
  pinned := LocalTime.day_ofDay .epoch d.wall.timeOfDay

def timeOfDay (t : Time) : TimeOfDay := t.wall.timeOfDay

def ofFields (hour minute second millisecond : Nat) (zone : Option Zone) : Except ValueError Time :=
  let fields : ClockFields := { year := 1970, month := 1, day := 1, hour, minute, second, millisecond }
  (fields.check .time).map fun wall => ofDateTime ⟨wall, zone⟩

def ofPrecise (reading : PreciseTimeOfDay) : Time :=
  ofDateTime ⟨.ofDay .epoch reading.toMillis, none⟩

def plainChars (t : Time) : List Char := t.timeOfDay.chars

def chars (t : Time) : List Char := t.plainChars ++ DateTime.zoneChars t.zone

def text (t : Time) : String := String.ofList t.chars

instance : ToString Time := ⟨text⟩

def readFields : Reader ((Nat × Nat × Nat × Nat) × Option Zone) := fun cs => do
  let (fields, cs) ← DateTime.readTime cs
  let ((zone, _), cs) ← Zone.readOptional cs
  return ((fields, zone), cs)

def parse (text : String) : Except ValueError Time :=
  match Reader.whole readFields text.toList with
  | .error stop => .error (stop.within .time text.toList)
  | .ok ((hour, minute, second, millisecond), zone) => ofFields hour minute second millisecond zone

def add (t : Time) (u : Duration) : Except ValueError Time := (t.toDateTime.add u).map ofDateTime

def sub (t : Time) (u : Duration) : Except ValueError Time := (t.toDateTime.sub u).map ofDateTime

def addDayTime (t : Time) (u : DayTimeDuration) : Except ValueError Time := t.add u.duration

def subDayTime (t : Time) (u : DayTimeDuration) : Except ValueError Time := t.sub u.duration

def compare (a b : Time) : Except ValueError Ordering := a.toDateTime.compare b.toDateTime

end Time

end PolicyValues
