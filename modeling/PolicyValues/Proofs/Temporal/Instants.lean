import PolicyValues.Proofs.Temporal.Grammar

/-!
A wrapped zone keeps the instant. Its day goes to the date, so the milliseconds since the epoch are
those of the fields as they are written, read on UTC, less the offset as it is written.
-/
namespace PolicyValues
open Text

/-! ## Written instants -/

namespace WrittenTime

def millis (w : WrittenTime) : Nat :=
  3600000 * w.hour.value + 60000 * w.minute.value + 1000 * w.second.value + w.millisecond

theorem Denotes.millis_eq {w : WrittenTime} {t : TimeOfDay} (h : w.Denotes t) :
    t.millis = w.millis := by
  have fields := congrArg TimeOfDay.millis t.ofFields_self
  rw [← fields, millis, ← h.hour, ← h.minute, ← h.second, ← h.millisecond]
  rfl

end WrittenTime

namespace WrittenZone

/-- No zone where none is written; else one within half a day of UTC, which is off the written
offset by whole days. -/
inductive WrapsTo : Option WrittenZone → Option Zone → Prop where
  | floating : WrapsTo none none
  | zoned {w : WrittenZone} {zone : Zone} (low : -720 < zone.minutes) (high : zone.minutes ≤ 720)
      (congruent : zone.minutes % 1440 = w.east % 1440) : WrapsTo (some w) (some zone)

theorem Denotes.wrapsTo {w : Option WrittenZone} {zone : Option Zone} (h : Denotes w zone) :
    WrapsTo w zone := by
  cases w with
  | none =>
    obtain rfl := Option.map_eq_none_iff.1 h
    exact .floating
  | some w =>
    obtain ⟨zone, rfl, minutes⟩ := Option.map_eq_some_iff.1 h
    refine .zoned zone.low zone.high ?_
    rw [minutes, Int.add_mul_emod_self_left]

theorem Denotes.minutes_eq {w : Option WrittenZone} {zone : Option Zone} (h : Denotes w zone) :
    zone.elim 0 Zone.minutes = optionEast w + 1440 * optionShift w := by
  cases w with
  | none =>
    obtain rfl := Option.map_eq_none_iff.1 h
    rfl
  | some w =>
    obtain ⟨zone, rfl, minutes⟩ := Option.map_eq_some_iff.1 h
    exact minutes

end WrittenZone

theorem DateTime.epochMillis_eq (d : DateTime) :
    d.epochMillis = d.wall.millis - 60000 * d.zone.elim 0 Zone.minutes := by
  obtain ⟨wall, _ | zone⟩ := d
  · simp only [epochMillis, Option.elim_none, Int.mul_zero, Int.sub_zero]
  · simp only [epochMillis, Option.elim_some, Int.mul_comm]

namespace WrittenDateTime

/-- The written fields read on UTC, less the written offset. -/
def instant (count : CivilDate → Int) (w : WrittenDateTime) : Int :=
  millisPerDay * count w.date.civil + w.time.millis - 60000 * WrittenZone.optionEast w.zone

variable {count : CivilDate → Int}

theorem Denotes.epochMillis_eq {w : WrittenDateTime} {d : DateTime} (h : w.Denotes d)
    (days : CivilDate.CountsDays count) (valid : w.date.civil.Valid) :
    d.epochMillis = w.instant count := by
  have number : d.wall.day.number = count w.date.civil + WrittenZone.optionShift w.zone := by
    rw [days.eq_dayNumber valid, ← WrittenZone.dayNumber_moved w.zone valid,
      d.wall.day.number_eq_dayNumber]
    exact congrArg CivilDate.dayNumber h.date
  have wall := d.wall.millis_eq
  rw [number, h.time.millis_eq] at wall
  rw [d.epochMillis_eq, h.zone.minutes_eq, wall, instant]
  unfold millisPerDay
  omega

end WrittenDateTime

/-! ## The clock of UTC -/

namespace LocalTime

theorem exists_date_timeOfDay (millis : Int) :
    ∃ (date : CivilDate) (time : TimeOfDay), date.Valid ∧
      millis = millisPerDay * date.dayNumber + time.millis := by
  refine ⟨.ofDayNumber (millis / millisPerDay), ⟨(millis % millisPerDay).toNat, ?_⟩,
    CivilDate.ofDayNumber_valid _, ?_⟩
  · unfold millisPerDay
    omega
  · rw [CivilDate.dayNumber_ofDayNumber]
    unfold millisPerDay
    simp only
    omega

theorem millis_eq_dayNumber_iff {t : LocalTime} {date : CivilDate} {time : TimeOfDay}
    (valid : date.Valid) :
    t.millis = millisPerDay * date.dayNumber + time.millis ↔
      t.date = date ∧ t.timeOfDay = time := by
  rw [Int.mul_comm, millis_eq_iff, Day.number_eq_dayNumber_iff valid]
  rfl

end LocalTime

namespace DateTime

theorem toUtc_eq_ok_iff {d u : DateTime} (zoned : d.zone ≠ none) :
    d.toUtc = .ok u ↔ u.zone = some .utc ∧ u.wall.millis = d.epochMillis := by
  obtain ⟨wall, _ | zone⟩ := d
  · exact absurd rfl zoned
  · obtain ⟨wall', zone'⟩ := u
    have shifted : wall.shift? (-(zone.minutes * 60000)) = some wall' ↔
        wall'.millis = wall.millis - zone.minutes * 60000 := LocalTime.ofMillis?_eq_some_iff
    simp only [epochMillis, toUtc, ← shifted]
    cases wall.shift? (-(zone.minutes * 60000)) with
    | none => simp only [reduceCtorEq, and_false]
    | some found =>
      simp only [Except.ok.injEq, DateTime.mk.injEq, Option.some.injEq]
      rw [and_comm, eq_comm (a := some Zone.utc)]

theorem toUtc_ok_or (d : DateTime) :
    (∃ u, d.toUtc = .ok u) ∨ d.toUtc = .error (.outOfRange .dateTime .normalization) := by
  unfold toUtc
  split
  · exact .inl ⟨d, rfl⟩
  · split
    · exact .inl ⟨_, rfl⟩
    · exact .inr rfl

theorem epochMillis_of_utc {u : DateTime} (utc : u.zone = some .utc) :
    u.epochMillis = u.wall.millis := by
  rw [u.epochMillis_eq, utc]
  exact Int.sub_zero _

theorem toUtc_shows {d : DateTime} {date : CivilDate} {time : TimeOfDay} (zoned : d.zone ≠ none)
    (valid : date.Valid) (instant : d.epochMillis = millisPerDay * date.dayNumber + time.millis) :
    (date.InCalendar → ∃ u, d.toUtc = .ok u ∧ u.zone = some .utc ∧ u.wall.date = date ∧
      u.wall.timeOfDay = time ∧ u.epochMillis = d.epochMillis) ∧
    (¬ date.InCalendar → d.toUtc = .error (.outOfRange .dateTime .normalization)) := by
  constructor
  · intro within
    obtain ⟨day, rfl⟩ := Day.exists_date_eq_iff.2 within
    let u : DateTime := ⟨.ofDay day time, some .utc⟩
    have date : u.wall.date = day.date := congrArg Day.date (LocalTime.day_ofDay day time)
    have clock : u.wall.timeOfDay = time := LocalTime.timeOfDay_ofDay day time
    have millis : u.wall.millis = d.epochMillis := by
      rw [instant]
      exact (LocalTime.millis_eq_dayNumber_iff valid).2 ⟨date, clock⟩
    exact ⟨u, (toUtc_eq_ok_iff zoned).2 ⟨rfl, millis⟩, rfl, date, clock,
      (epochMillis_of_utc rfl).trans millis⟩
  · intro outside
    refine d.toUtc_ok_or.resolve_left ?_
    rintro ⟨u, moved⟩
    obtain ⟨_, millis⟩ := (toUtc_eq_ok_iff zoned).1 moved
    obtain ⟨rfl, _⟩ := (LocalTime.millis_eq_dayNumber_iff valid).1 (millis.trans instant)
    exact outside u.wall.day.inCalendar_date

theorem ofOffset_zero (reading : PreciseTime) :
    ∃ utc, OffsetInstant.ofPrecise? reading 0 = some utc ∧
      ofOffset utc = .ok (ofPrecise reading (some .utc)) := by
  have low := reading.toMillis.low
  have high := reading.toMillis.high
  have within : firstDay * millisPerDay ≤ reading.toMillis.millis + 1000 * 0 ∧
      reading.toMillis.millis + 1000 * 0 < (lastDay + 1) * millisPerDay := by
    rw [Int.mul_zero, Int.add_zero]
    exact ⟨low, high⟩
  refine ⟨⟨reading.toMillis, 0, ⟨_, within.1, within.2⟩, rfl⟩, ?_, ?_⟩
  · simp only [OffsetInstant.ofPrecise?, OffsetInstant.of?, within, and_self, dite_true]
  · have found : LocalTime.shift? ⟨_, within.1, within.2⟩ (0 * millisPerDay) =
        some reading.toMillis := by
      refine LocalTime.ofMillis?_eq_some_iff.2 ?_
      simp only [Int.mul_zero, Int.zero_mul, Int.add_zero]
    have canonical : Zone.canonicalize? ((0 : Int).tdiv 60) = some (.utc, 0) := by decide
    simp only [ofOffset, canonical, found]
    rfl

theorem epochMillis_ofPrecise (reading : PreciseTime) :
    nanosPerMilli * (ofPrecise reading (some .utc)).epochMillis ≤ reading.nanos ∧
      reading.nanos < nanosPerMilli * ((ofPrecise reading (some .utc)).epochMillis + 1) := by
  rw [epochMillis_of_utc rfl]
  simp only [ofPrecise, PreciseTime.toMillis, nanosPerMilli]
  omega

end DateTime

namespace Temporal

/-- What is read stands for the instant that is written, whatever the zone is wrapped to. Its UTC
clock stands for the same instant, and fails only where UTC has a date outside the calendar. -/
theorem instants_kept {count : CivilDate → Int} (days : CivilDate.CountsDays count) :
    (∀ (text : String) (d : DateTime), DateTime.parse text = .ok d →
      ∃ w : WrittenDateTime, text.toList = w.chars ∧ d.epochMillis = w.instant count ∧
        WrittenZone.WrapsTo w.zone d.zone) ∧
    (∀ (text : String) (d : Date), Date.parse text = .ok d →
      ∃ (w : WrittenDate) (z : Option WrittenZone),
        text.toList = w.chars ++ WrittenZone.optionChars z ∧
          d.toDateTime.epochMillis =
            millisPerDay * count w.civil - 60000 * WrittenZone.optionEast z ∧
          WrittenZone.WrapsTo z d.zone) ∧
    (∀ (text : String) (t : Time), Time.parse text = .ok t →
      ∃ (w : WrittenTime) (z : Option WrittenZone),
        text.toList = w.chars ++ WrittenZone.optionChars z ∧
          t.toDateTime.epochMillis % millisPerDay =
            (w.millis - 60000 * WrittenZone.optionEast z) % millisPerDay ∧
          WrittenZone.WrapsTo z t.zone) ∧
    (∀ d : DateTime, d.zone ≠ none → ∃ (date : CivilDate) (time : TimeOfDay), date.Valid ∧
      d.epochMillis = millisPerDay * count date + time.millis ∧
      (date.InCalendar → ∃ u, d.toUtc = .ok u ∧ u.zone = some .utc ∧ u.wall.date = date ∧
        u.wall.timeOfDay = time ∧ u.epochMillis = d.epochMillis) ∧
      (¬ date.InCalendar → d.toUtc = .error (.outOfRange .dateTime .normalization))) ∧
    (∀ reading : PreciseTime,
      nanosPerMilli * (DateTime.ofPrecise reading (some .utc)).epochMillis ≤ reading.nanos ∧
        reading.nanos <
          nanosPerMilli * ((DateTime.ofPrecise reading (some .utc)).epochMillis + 1) ∧
        ∃ utc, OffsetInstant.ofPrecise? reading 0 = some utc ∧
          DateTime.ofOffset utc = .ok (DateTime.ofPrecise reading (some .utc))) := by
  refine ⟨fun text d parsed => ?_, fun text d parsed => ?_, fun text t parsed => ?_,
    fun d zoned => ?_, fun reading => ?_⟩
  · obtain ⟨w, same, inRange, denotes⟩ := WrittenDateTime.of_parse parsed
    exact ⟨w, same, denotes.epochMillis_eq days inRange.date.valid, denotes.zone.wrapsTo⟩
  · obtain ⟨w, z, same, inRange, denotes⟩ := WrittenDate.of_parse parsed
    refine ⟨w, z, same, ?_, denotes.zone.wrapsTo⟩
    rw [denotes.epochMillis_eq days inRange.date.valid]
    exact congrArg (· - _) (Int.add_zero _)
  · obtain ⟨w, z, same, _, _, clock, zone⟩ := WrittenTime.of_parse parsed
    refine ⟨w, z, same, ?_, zone.wrapsTo⟩
    have wall : t.wall.millis = w.millis := by
      rw [t.wall.millis_eq, t.pinned, ← clock.millis_eq]
      exact Int.zero_add _
    rw [DateTime.epochMillis_eq, zone.minutes_eq, wall]
    unfold millisPerDay
    omega
  · obtain ⟨date, time, valid, instant⟩ := LocalTime.exists_date_timeOfDay d.epochMillis
    refine ⟨date, time, valid, ?_, DateTime.toUtc_shows zoned valid instant⟩
    rw [instant, days.eq_dayNumber valid]
  · obtain ⟨low, high⟩ := DateTime.epochMillis_ofPrecise reading
    exact ⟨low, high, DateTime.ofOffset_zero reading⟩

theorem leap_day_noon_kept :
    let noon : LocalTime := ⟨1330603200000, by decide, by decide⟩
    let d : DateTime := ⟨noon, some ⟨660, by decide, by decide⟩⟩
    d.text = "2012-03-01T12:00:00+11:00" ∧ CivilDate.CountsDays CivilDate.dayNumber ∧
      DateTime.parse "2012-02-29T12:00:00-13:00" = .ok d ∧
      ∃ w : WrittenDateTime, "2012-02-29T12:00:00-13:00".toList = w.chars ∧
        d.epochMillis = w.instant CivilDate.dayNumber ∧ WrittenZone.WrapsTo w.zone d.zone := by
  intro noon d
  have shown : d.text = "2012-03-01T12:00:00+11:00" := by decide +kernel
  have read : DateTime.parse "2012-02-29T12:00:00-13:00" = .ok d := rfl
  exact ⟨shown, CivilDate.countsDays_dayNumber, read,
    (instants_kept CivilDate.countsDays_dayNumber).1 _ d read⟩

end Temporal

end PolicyValues
