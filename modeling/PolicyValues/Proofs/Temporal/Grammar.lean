import PolicyValues.Proofs.Temporal.Written

/-!
What the readers of instants, dates and times of day accept: the written forms whose fields some
clock can show, in a zone of at most a day, and with a date that stays in the calendar when its zone
is wrapped. They make of such a form what it says.
-/
namespace PolicyValues
open Text

theorem LocalTime.exists_fields_iff {f : ClockFields} :
    (∃ t : LocalTime, t.fields = f) ↔
      CivilDate.InCalendar ⟨f.year, f.month, f.day⟩ ∧ f.hour ≤ 23 ∧ f.minute ≤ 59 ∧
        f.second ≤ 59 ∧ f.millisecond ≤ 999 := by
  constructor
  · rintro ⟨t, rfl⟩
    exact ⟨t.day.inCalendar_date, t.timeOfDay.hour_le, t.timeOfDay.minute_le,
      t.timeOfDay.second_le, t.timeOfDay.millisecond_le⟩
  · rintro ⟨date, hour, minute, second, millisecond⟩
    obtain ⟨day, date_eq⟩ := Day.exists_date_eq_iff.2 date
    refine ⟨ofDay day (.ofFields f.hour f.minute f.second f.millisecond hour minute second
      millisecond), ?_⟩
    simp only [fields, LocalTime.date, day_ofDay, timeOfDay_ofDay, date_eq,
      TimeOfDay.hour_ofFields, TimeOfDay.minute_ofFields, TimeOfDay.second_ofFields,
      TimeOfDay.millisecond_ofFields]

theorem LocalTime.millis_eq_iff {t : LocalTime} {number : Int} {time : TimeOfDay} :
    t.millis = number * millisPerDay + time.millis ↔
      t.day.number = number ∧ t.timeOfDay = time := by
  have shown := t.millis_eq
  constructor
  · intro same
    have bound := t.timeOfDay.bound
    have bound' := time.bound
    have number : t.day.number = number ∧ t.timeOfDay.millis = time.millis := by
      unfold millisPerDay at *
      omega
    exact ⟨number.1, TimeOfDay.mk.injEq .. ▸ number.2⟩
  · rintro ⟨rfl, rfl⟩
    exact shown

theorem LocalTime.shift?_days_eq_some_iff {t u : LocalTime} {days : Int} :
    t.shift? (days * millisPerDay) = some u ↔
      u.day.number = t.day.number + days ∧ u.timeOfDay = t.timeOfDay := by
  rw [shift?, ofMillis?_eq_some_iff, ← millis_eq_iff, t.millis_eq, Int.add_mul, Int.add_right_comm]

theorem DateTime.ofWritten_eq_ok_iff {subject : Subject} {fields : ClockFields}
    {zone : Option Zone} {days : Int} {d : DateTime} :
    ofWritten subject fields zone days = .ok d ↔
      d.zone = zone ∧ ∃ wall : LocalTime, wall.fields = fields ∧
        d.wall.day.number = wall.day.number + days ∧ d.wall.timeOfDay = wall.timeOfDay := by
  obtain ⟨moved, zone'⟩ := d
  constructor
  · intro h
    obtain ⟨wall, checked, shifted⟩ := bind_eq_ok_iff.1 h
    split at shifted
    · rename_i found
      simp only [Except.ok.injEq, DateTime.mk.injEq] at shifted
      obtain ⟨rfl, rfl⟩ := shifted
      exact ⟨rfl, wall, ClockFields.check_eq_ok_iff.1 checked,
        LocalTime.shift?_days_eq_some_iff.1 found⟩
    · simp only [reduceCtorEq] at shifted
  · rintro ⟨rfl, wall, shown, moved⟩
    have checked : fields.check subject = .ok wall := ClockFields.check_eq_ok_iff.2 shown
    have found := LocalTime.shift?_days_eq_some_iff.2 moved
    simp only [ofWritten, checked, bind, Except.bind, found]

theorem WrittenTime.exists_denotes {w : WrittenTime} (h : w.InRange) :
    ∃ t : TimeOfDay, w.Denotes t := by
  refine ⟨.ofFields w.hour.value w.minute.value w.second.value w.millisecond h.hour h.minute
    h.second w.millisecond_le, ?_, ?_, ?_, ?_⟩
  · exact TimeOfDay.hour_ofFields ..
  · exact TimeOfDay.minute_ofFields ..
  · exact TimeOfDay.second_ofFields ..
  · exact TimeOfDay.millisecond_ofFields ..

theorem WrittenZone.exists_denotes {w : Option WrittenZone} (h : ∀ zone ∈ w, zone.InRange) :
    ∃ zone : Option Zone, Denotes w zone := by
  cases w with
  | none => exact ⟨none, rfl⟩
  | some w =>
    have bounds := (h w rfl).bounds
    have half : -720 < w.east + 1440 * w.dayShift ∧ w.east + 1440 * w.dayShift ≤ 720 := by
      unfold dayShift
      split
      · omega
      · split <;> omega
    exact ⟨some ⟨_, half.1, half.2⟩, rfl⟩

@[ext]
structure WrittenDateTime where
  date : WrittenDate
  time : WrittenTime
  zone : Option WrittenZone

namespace WrittenDateTime

def chars (w : WrittenDateTime) : List Char :=
  w.date.chars ++ 'T' :: (w.time.chars ++ WrittenZone.optionChars w.zone)

def fields (w : WrittenDateTime) : ClockFields where
  year := w.date.civil.year
  month := w.date.civil.month
  day := w.date.civil.day
  hour := w.time.hour.value
  minute := w.time.minute.value
  second := w.time.second.value
  millisecond := w.time.millisecond

def moved (w : WrittenDateTime) : CivilDate := WrittenZone.moved w.zone w.date.civil

structure InRange (w : WrittenDateTime) : Prop where
  date : w.date.civil.InCalendar
  time : w.time.InRange
  zone : ∀ zone ∈ w.zone, zone.InRange
  moved : w.moved.InCalendar

structure Denotes (w : WrittenDateTime) (d : DateTime) : Prop where
  date : d.wall.date = w.moved
  time : w.time.Denotes d.wall.timeOfDay
  zone : WrittenZone.Denotes w.zone d.zone

theorem chars_injective {v w : WrittenDateTime} (h : v.chars = w.chars) : v = w := by
  obtain ⟨date, behind⟩ := WrittenDate.append_inj h
  obtain ⟨time, zone⟩ := WrittenTime.append_inj (WrittenZone.ends_optionChars _)
    (WrittenZone.ends_optionChars _) (List.tail_eq_of_cons_eq behind)
  exact WrittenDateTime.ext date time (WrittenZone.optionChars_injective zone)

theorem of_readFields {cs : List Char} {fields : ClockFields} {zone : Option Zone} {days : Int}
    (h : DateTime.readFields cs = .ok ((fields, zone, days), [])) :
    ∃ w : WrittenDateTime, cs = w.chars ∧ fields = w.fields ∧
      days = WrittenZone.optionShift w.zone ∧
      (∀ zone ∈ w.zone, zone.InRange) ∧ WrittenZone.Denotes w.zone zone := by
  simp only [DateTime.readFields, bind_eq_ok_iff, Prod.exists, pure, Except.pure, Except.ok.injEq,
    Prod.mk.injEq] at h
  obtain ⟨_, _, _, _, dates, _, _, mark, _, _, _, _, _, times, _, _, _, zones, ⟨rfl, rfl, rfl⟩,
    rfl⟩ := h
  obtain ⟨date, rfl, civil, _⟩ := WrittenDate.of_readDate dates
  obtain rfl := Reader.mark_eq_ok_iff.1 mark
  obtain ⟨time, rfl, rfl, rfl, rfl, rfl⟩ := WrittenTime.of_readTime times
  obtain ⟨zone, rfl, inRange, rfl, denotes⟩ := WrittenZone.readOptional_eq_ok_iff.1 zones
  refine ⟨⟨date, time, zone⟩, rfl, ?_, rfl, inRange, denotes⟩
  simp only [WrittenDateTime.fields, civil]

theorem readFields_chars {w : WrittenDateTime} {zone : Option Zone}
    (small : Digits.value w.date.year < 2 ^ 63) (inRange : ∀ zone ∈ w.zone, zone.InRange)
    (denotes : WrittenZone.Denotes w.zone zone) :
    DateTime.readFields w.chars =
      .ok ((w.fields, zone, WrittenZone.optionShift w.zone), []) := by
  have zones := WrittenZone.readOptional_eq_ok_iff.2 ⟨w.zone, rfl, inRange, rfl, denotes⟩
  simp only [DateTime.readFields, chars, bind, Except.bind, w.date.readDate_chars small,
    Reader.mark_cons, w.time.readTime_chars (WrittenZone.ends_optionChars w.zone), zones, pure,
    Except.pure]
  rfl

theorem fields_eq_iff {w : WrittenDateTime} {t : LocalTime} :
    t.fields = w.fields ↔ t.date = w.date.civil ∧ w.time.Denotes t.timeOfDay := by
  constructor
  · intro h
    simp only [LocalTime.fields, fields, ClockFields.mk.injEq] at h
    obtain ⟨year, month, day, hour, minute, second, millisecond⟩ := h
    refine ⟨?_, hour, minute, second, millisecond⟩
    calc t.date = ⟨t.date.year, t.date.month, t.date.day⟩ := rfl
      _ = w.date.civil := by rw [year, month, day]
  · rintro ⟨date, hour, minute, second, millisecond⟩
    simp only [LocalTime.fields, fields, date, hour, minute, second, millisecond]

theorem exists_fields_iff {w : WrittenDateTime} :
    (∃ t : LocalTime, t.fields = w.fields) ↔ w.date.civil.InCalendar ∧ w.time.InRange := by
  rw [LocalTime.exists_fields_iff]
  constructor
  · rintro ⟨date, hour, minute, second, _⟩
    exact ⟨date, hour, minute, second⟩
  · rintro ⟨date, hour, minute, second⟩
    exact ⟨date, hour, minute, second, w.time.millisecond_le⟩

/-- The shift of a wrapped zone is the step from the written date to the one beside it. -/
theorem number_eq_iff {w : WrittenDateTime} {written shown : Day}
    (date : written.date = w.date.civil) :
    shown.number = written.number + WrittenZone.optionShift w.zone ↔ shown.date = w.moved := by
  have valid : w.date.civil.Valid := date ▸ written.date_valid
  rw [written.number_eq_dayNumber, date, ← WrittenZone.dayNumber_moved w.zone valid]
  exact Day.number_eq_dayNumber_iff (WrittenZone.moved_valid w.zone valid)

theorem ofWritten_eq_ok_iff (w : WrittenDateTime) {subject : Subject} {zone : Option Zone}
    {d : DateTime} :
    DateTime.ofWritten subject w.fields zone (WrittenZone.optionShift w.zone) = .ok d ↔
      d.zone = zone ∧ w.date.civil.InCalendar ∧ w.time.InRange ∧ d.wall.date = w.moved ∧
        w.time.Denotes d.wall.timeOfDay := by
  rw [DateTime.ofWritten_eq_ok_iff]
  constructor
  · rintro ⟨kind, wall, shown, number, time⟩
    obtain ⟨inCalendar, inRange⟩ := exists_fields_iff.1 ⟨wall, shown⟩
    obtain ⟨date, clock⟩ := fields_eq_iff.1 shown
    exact ⟨kind, inCalendar, inRange, (number_eq_iff date).1 number, time ▸ clock⟩
  · rintro ⟨kind, inCalendar, inRange, moved, clock⟩
    obtain ⟨wall, shown⟩ := exists_fields_iff.2 ⟨inCalendar, inRange⟩
    obtain ⟨date, clock'⟩ := fields_eq_iff.1 shown
    refine ⟨kind, wall, shown, (number_eq_iff date).2 moved, ?_⟩
    rw [← d.wall.timeOfDay.ofFields_self, ← wall.timeOfDay.ofFields_self]
    simp only [clock.hour, clock.minute, clock.second, clock.millisecond, clock'.hour,
      clock'.minute, clock'.second, clock'.millisecond]

theorem parse_chars_eq_ok_iff (w : WrittenDateTime) (d : DateTime) :
    DateTime.parse (String.ofList w.chars) = .ok d ↔ w.InRange ∧ w.Denotes d := by
  unfold DateTime.parse
  rw [String.toList_ofList]
  constructor
  · intro h
    split at h
    · simp only [reduceCtorEq] at h
    · rename_i fields zone days read
      obtain ⟨w', same, rfl, rfl, inRange, denotes⟩ :=
        of_readFields (Reader.whole_eq_ok_iff.1 read)
      obtain rfl := chars_injective same
      obtain ⟨rfl, date, time, moved, clock⟩ := w.ofWritten_eq_ok_iff.1 h
      exact ⟨⟨date, time, inRange, moved ▸ d.wall.day.inCalendar_date⟩, moved, clock, denotes⟩
  · rintro ⟨inRange, denotes⟩
    have read := readFields_chars (WrittenDate.year_lt_of_inCalendar inRange.date) inRange.zone
      denotes.zone
    rw [Reader.whole_eq_ok_iff.2 read]
    exact w.ofWritten_eq_ok_iff.2 ⟨rfl, inRange.date, inRange.time, denotes.date, denotes.time⟩

theorem of_parse {text : String} {d : DateTime} (h : DateTime.parse text = .ok d) :
    ∃ w : WrittenDateTime, text.toList = w.chars ∧ w.InRange ∧ w.Denotes d := by
  obtain ⟨w, same⟩ : ∃ w : WrittenDateTime, text.toList = w.chars := by
    unfold DateTime.parse at h
    split at h
    · simp only [reduceCtorEq] at h
    · obtain ⟨w, same, _⟩ := of_readFields (Reader.whole_eq_ok_iff.1 ‹_›)
      exact ⟨w, same⟩
  rw [← text.ofList_toList, same] at h
  exact ⟨w, same, (w.parse_chars_eq_ok_iff d).1 h⟩

theorem exists_denotes {w : WrittenDateTime} (h : w.InRange) : ∃ d : DateTime, w.Denotes d := by
  obtain ⟨day, date⟩ := Day.exists_date_eq_iff.2 h.moved
  obtain ⟨time, clock⟩ := WrittenTime.exists_denotes h.time
  obtain ⟨zone, denotes⟩ := WrittenZone.exists_denotes h.zone
  refine ⟨⟨.ofDay day time, zone⟩, ?_, ?_, denotes⟩
  · rw [LocalTime.date, LocalTime.day_ofDay, date]
  · rw [LocalTime.timeOfDay_ofDay]
    exact clock

theorem exists_parse_iff (text : String) :
    (∃ d, DateTime.parse text = .ok d) ↔
      ∃ w : WrittenDateTime, text.toList = w.chars ∧ w.InRange := by
  constructor
  · rintro ⟨d, parsed⟩
    obtain ⟨w, same, inRange, _⟩ := of_parse parsed
    exact ⟨w, same, inRange⟩
  · rintro ⟨w, same, inRange⟩
    obtain ⟨d, denotes⟩ := exists_denotes inRange
    rw [← text.ofList_toList, same]
    exact ⟨d, (w.parse_chars_eq_ok_iff d).2 ⟨inRange, denotes⟩⟩

def midnight (date : WrittenDate) (zone : Option WrittenZone) : WrittenDateTime where
  date := date
  time := ⟨.zeros 2, .zeros 2, .zeros 2, none⟩
  zone := zone

theorem chars_midnight (date : WrittenDate) (zone : Option WrittenZone) :
    (midnight date zone).chars =
      date.chars ++ ("T00:00:00".toList ++ WrittenZone.optionChars zone) := rfl

theorem fields_midnight (date : WrittenDate) (zone : Option WrittenZone) :
    (midnight date zone).fields =
      { year := date.civil.year, month := date.civil.month, day := date.civil.day } := rfl

end WrittenDateTime

namespace WrittenDate

theorem of_readFields {cs : List Char} {fields : ClockFields} {zone : Option Zone} {days : Int}
    (h : Date.readFields cs = .ok ((fields, zone, days), [])) :
    ∃ (w : WrittenDate) (z : Option WrittenZone), cs = w.chars ++ WrittenZone.optionChars z ∧
      fields = (WrittenDateTime.midnight w z).fields ∧ days = WrittenZone.optionShift z ∧
      (∀ zone ∈ z, zone.InRange) ∧ WrittenZone.Denotes z zone := by
  simp only [Date.readFields, bind_eq_ok_iff, Prod.exists, pure, Except.pure, Except.ok.injEq,
    Prod.mk.injEq] at h
  obtain ⟨_, _, _, _, dates, _, _, _, zones, ⟨rfl, rfl, rfl⟩, rfl⟩ := h
  obtain ⟨w, rfl, civil, _⟩ := of_readDate dates
  obtain ⟨z, rfl, inRange, rfl, denotes⟩ := WrittenZone.readOptional_eq_ok_iff.1 zones
  refine ⟨w, z, rfl, ?_, rfl, inRange, denotes⟩
  rw [WrittenDateTime.fields_midnight, civil]

theorem readFields_chars {w : WrittenDate} {z : Option WrittenZone} {zone : Option Zone}
    (small : Digits.value w.year < 2 ^ 63) (inRange : ∀ zone ∈ z, zone.InRange)
    (denotes : WrittenZone.Denotes z zone) :
    Date.readFields (w.chars ++ WrittenZone.optionChars z) =
      .ok (((WrittenDateTime.midnight w z).fields, zone, WrittenZone.optionShift z), []) := by
  have zones := WrittenZone.readOptional_eq_ok_iff.2 ⟨z, rfl, inRange, rfl, denotes⟩
  simp only [Date.readFields, bind, Except.bind, w.readDate_chars small, zones, pure, Except.pure]
  rfl

theorem toDateTime_of_midnight {w : WrittenDate} {z : Option WrittenZone} {d : DateTime}
    (clock : (WrittenDateTime.midnight w z).time.Denotes d.wall.timeOfDay) :
    (Date.ofDateTime d).toDateTime = d := by
  apply Date.toDateTime_ofDateTime
  obtain ⟨hour, minute, second, millisecond⟩ := clock
  rw [← d.wall.timeOfDay.ofFields_self]
  simp only [hour, minute, second, millisecond]
  rfl

theorem parse_chars_eq_ok_iff (w : WrittenDate) (z : Option WrittenZone) (d : DateTime) :
    (Date.parse (String.ofList (w.chars ++ WrittenZone.optionChars z))).map (·.toDateTime) = .ok d ↔
      (WrittenDateTime.midnight w z).InRange ∧ (WrittenDateTime.midnight w z).Denotes d := by
  rw [map_eq_ok_iff]
  unfold Date.parse
  rw [String.toList_ofList]
  constructor
  · rintro ⟨date, h, rfl⟩
    split at h
    · simp only [reduceCtorEq] at h
    · rename_i fields zone days read
      obtain ⟨w', z', same, rfl, rfl, inRange, denotes⟩ :=
        of_readFields (Reader.whole_eq_ok_iff.1 read)
      obtain ⟨rfl, behind⟩ := append_inj same
      obtain rfl := WrittenZone.optionChars_injective behind
      obtain ⟨written, made, rfl⟩ := map_eq_ok_iff.1 h
      obtain ⟨rfl, date, time, moved, clock⟩ :=
        (WrittenDateTime.midnight w z).ofWritten_eq_ok_iff.1 made
      rw [toDateTime_of_midnight clock]
      exact ⟨⟨date, time, inRange, moved ▸ written.wall.day.inCalendar_date⟩, moved, clock, denotes⟩
  · rintro ⟨inRange, denotes⟩
    have small : Digits.value w.year < 2 ^ 63 := year_lt_of_inCalendar inRange.date
    have day : ∀ zone ∈ z, zone.InRange := inRange.zone
    have zones : WrittenZone.Denotes z d.zone := denotes.zone
    have read := readFields_chars small day zones
    have made : DateTime.ofWritten .date (WrittenDateTime.midnight w z).fields d.zone
        (WrittenZone.optionShift z) = .ok d :=
      (WrittenDateTime.midnight w z).ofWritten_eq_ok_iff.2
        ⟨rfl, inRange.date, inRange.time, denotes.date, denotes.time⟩
    rw [Reader.whole_eq_ok_iff.2 read]
    refine ⟨.ofDateTime d, ?_, toDateTime_of_midnight denotes.time⟩
    simp only [made, Except.map]

theorem of_parse {text : String} {d : Date} (h : Date.parse text = .ok d) :
    ∃ (w : WrittenDate) (z : Option WrittenZone),
      text.toList = w.chars ++ WrittenZone.optionChars z ∧
        (WrittenDateTime.midnight w z).InRange ∧
        (WrittenDateTime.midnight w z).Denotes d.toDateTime := by
  obtain ⟨w, z, same⟩ : ∃ (w : WrittenDate) (z : Option WrittenZone),
      text.toList = w.chars ++ WrittenZone.optionChars z := by
    unfold Date.parse at h
    split at h
    · simp only [reduceCtorEq] at h
    · obtain ⟨w, z, same, _⟩ := of_readFields (Reader.whole_eq_ok_iff.1 ‹_›)
      exact ⟨w, z, same⟩
  rw [← text.ofList_toList, same] at h
  exact ⟨w, z, same, (w.parse_chars_eq_ok_iff z d.toDateTime).1 (map_eq_ok_iff.2 ⟨d, h, rfl⟩)⟩

theorem parse_iff_midnight (w : WrittenDate) (z : Option WrittenZone) (d : DateTime) :
    (Date.parse (String.ofList (w.chars ++ WrittenZone.optionChars z))).map (·.toDateTime) =
        .ok d ↔
      DateTime.parse (String.ofList (w.chars ++ ("T00:00:00".toList ++
        WrittenZone.optionChars z))) = .ok d := by
  rw [w.parse_chars_eq_ok_iff, ← WrittenDateTime.parse_chars_eq_ok_iff,
    WrittenDateTime.chars_midnight]

theorem exists_parse_iff (text : String) :
    (∃ d, Date.parse text = .ok d) ↔
      ∃ (w : WrittenDate) (z : Option WrittenZone) (d : DateTime),
        text.toList = w.chars ++ WrittenZone.optionChars z ∧
          DateTime.parse (String.ofList (w.chars ++ ("T00:00:00".toList ++
            WrittenZone.optionChars z))) = .ok d := by
  constructor
  · rintro ⟨d, parsed⟩
    obtain ⟨w, z, same, _⟩ := of_parse parsed
    rw [← text.ofList_toList, same] at parsed
    exact ⟨w, z, d.toDateTime, same,
      (w.parse_iff_midnight z d.toDateTime).1 (map_eq_ok_iff.2 ⟨d, parsed, rfl⟩)⟩
  · rintro ⟨w, z, d, same, parsed⟩
    obtain ⟨date, parsed, _⟩ := map_eq_ok_iff.1 ((w.parse_iff_midnight z d).2 parsed)
    rw [← text.ofList_toList, same]
    exact ⟨date, parsed⟩

end WrittenDate

theorem Time.ofFields_eq_ok_iff {hour minute second millisecond : Nat} {zone : Option Zone}
    {t : Time} :
    ofFields hour minute second millisecond zone = .ok t ↔
      t.zone = zone ∧ t.timeOfDay.hour = hour ∧ t.timeOfDay.minute = minute ∧
        t.timeOfDay.second = second ∧ t.timeOfDay.millisecond = millisecond := by
  constructor
  · intro h
    obtain ⟨checked, kind⟩ := check_of_ofFields h
    have shown := ClockFields.check_eq_ok_iff.1 checked
    simp only [LocalTime.fields, ClockFields.mk.injEq] at shown
    exact ⟨kind, shown.2.2.2⟩
  · rintro ⟨rfl, rfl, rfl, rfl, rfl⟩
    exact t.ofFields_self

namespace WrittenTime

theorem parse_chars_eq_ok_iff (w : WrittenTime) (z : Option WrittenZone) (t : Time) :
    Time.parse (String.ofList (w.chars ++ WrittenZone.optionChars z)) = .ok t ↔
      w.InRange ∧ (∀ zone ∈ z, zone.InRange) ∧ w.Denotes t.timeOfDay ∧
        WrittenZone.Denotes z t.zone := by
  unfold Time.parse
  rw [String.toList_ofList]
  constructor
  · intro h
    split at h
    · simp only [reduceCtorEq] at h
    · rename_i hour minute second millisecond zone read
      have read := Reader.whole_eq_ok_iff.1 read
      simp only [Time.readFields, bind_eq_ok_iff, Prod.exists, pure, Except.pure, Except.ok.injEq,
        Prod.mk.injEq] at read
      obtain ⟨_, _, _, _, _, times, _, _, _, zones, ⟨⟨rfl, rfl, rfl, rfl⟩, rfl⟩, rfl⟩ := read
      obtain ⟨w', same, rfl, rfl, rfl, rfl⟩ := of_readTime times
      obtain ⟨z', rfl, inRange, _, denotes⟩ := WrittenZone.readOptional_eq_ok_iff.1 zones
      obtain ⟨rfl, behind⟩ := append_inj (WrittenZone.ends_optionChars z)
        (WrittenZone.ends_optionChars z') same
      obtain rfl := WrittenZone.optionChars_injective behind
      obtain ⟨rfl, hour, minute, second, millisecond⟩ := Time.ofFields_eq_ok_iff.1 h
      refine ⟨⟨?_, ?_, ?_⟩, inRange, ⟨hour, minute, second, millisecond⟩, denotes⟩
      · exact hour ▸ t.timeOfDay.hour_le
      · exact minute ▸ t.timeOfDay.minute_le
      · exact second ▸ t.timeOfDay.second_le
  · rintro ⟨_, inRange, clock, denotes⟩
    have zones := WrittenZone.readOptional_eq_ok_iff.2 ⟨z, rfl, inRange, rfl, denotes⟩
    have read : Time.readFields (w.chars ++ WrittenZone.optionChars z) =
        .ok (((w.hour.value, w.minute.value, w.second.value, w.millisecond), t.zone), []) := by
      simp only [Time.readFields, bind, Except.bind,
        w.readTime_chars (WrittenZone.ends_optionChars z), zones, pure, Except.pure]
    rw [Reader.whole_eq_ok_iff.2 read]
    exact Time.ofFields_eq_ok_iff.2
      ⟨rfl, clock.hour, clock.minute, clock.second, clock.millisecond⟩

theorem of_parse {text : String} {t : Time} (h : Time.parse text = .ok t) :
    ∃ (w : WrittenTime) (z : Option WrittenZone),
      text.toList = w.chars ++ WrittenZone.optionChars z ∧ w.InRange ∧
        (∀ zone ∈ z, zone.InRange) ∧ w.Denotes t.timeOfDay ∧ WrittenZone.Denotes z t.zone := by
  obtain ⟨w, z, same⟩ : ∃ (w : WrittenTime) (z : Option WrittenZone),
      text.toList = w.chars ++ WrittenZone.optionChars z := by
    unfold Time.parse at h
    split at h
    · simp only [reduceCtorEq] at h
    · rename_i read
      have read := Reader.whole_eq_ok_iff.1 read
      simp only [Time.readFields, bind_eq_ok_iff, Prod.exists, pure, Except.pure, Except.ok.injEq,
        Prod.mk.injEq] at read
      obtain ⟨_, _, _, _, _, times, _, _, _, zones, _, rfl⟩ := read
      obtain ⟨w, same, _⟩ := of_readTime times
      obtain ⟨z, rfl, _⟩ := WrittenZone.readOptional_eq_ok_iff.1 zones
      exact ⟨w, z, same⟩
  rw [← text.ofList_toList, same] at h
  exact ⟨w, z, same, (w.parse_chars_eq_ok_iff z t).1 h⟩

theorem exists_parse_iff (text : String) :
    (∃ t, Time.parse text = .ok t) ↔
      ∃ (w : WrittenTime) (z : Option WrittenZone),
        text.toList = w.chars ++ WrittenZone.optionChars z ∧ w.InRange ∧
          ∀ zone ∈ z, zone.InRange := by
  constructor
  · rintro ⟨t, parsed⟩
    obtain ⟨w, z, same, inRange, zones, _⟩ := of_parse parsed
    exact ⟨w, z, same, inRange, zones⟩
  · rintro ⟨w, z, same, inRange, zones⟩
    obtain ⟨time, clock⟩ := exists_denotes inRange
    obtain ⟨zone, denotes⟩ := WrittenZone.exists_denotes zones
    rw [← text.ofList_toList, same]
    refine ⟨.ofDateTime ⟨.ofDay .epoch time, zone⟩, (w.parse_chars_eq_ok_iff z _).2
      ⟨inRange, zones, ?_, denotes⟩⟩
    simp only [Time.timeOfDay, Time.ofDateTime, LocalTime.timeOfDay_ofDay]
    exact clock

end WrittenTime

namespace Temporal

/-- The three readers accept exactly the written forms in range and make of them what they say. A
date is read as the midnight of the same date in the same zone. -/
theorem accepted_iff_written :
    (∀ text : String, (∃ d, DateTime.parse text = .ok d) ↔
      ∃ w : WrittenDateTime, text.toList = w.chars ∧ w.InRange) ∧
    (∀ (w : WrittenDateTime) (d : DateTime),
      DateTime.parse (String.ofList w.chars) = .ok d ↔ w.InRange ∧ w.Denotes d) ∧
    (∀ text : String, (∃ d, Date.parse text = .ok d) ↔
      ∃ (w : WrittenDate) (z : Option WrittenZone) (d : DateTime),
        text.toList = w.chars ++ WrittenZone.optionChars z ∧
          DateTime.parse (String.ofList (w.chars ++ ("T00:00:00".toList ++
            WrittenZone.optionChars z))) = .ok d) ∧
    (∀ (w : WrittenDate) (z : Option WrittenZone) (d : DateTime),
      (Date.parse (String.ofList (w.chars ++ WrittenZone.optionChars z))).map (·.toDateTime) =
          .ok d ↔
        DateTime.parse (String.ofList (w.chars ++ ("T00:00:00".toList ++
          WrittenZone.optionChars z))) = .ok d) ∧
    (∀ text : String, (∃ t, Time.parse text = .ok t) ↔
      ∃ (w : WrittenTime) (z : Option WrittenZone),
        text.toList = w.chars ++ WrittenZone.optionChars z ∧ w.InRange ∧
          ∀ zone ∈ z, zone.InRange) ∧
    (∀ (w : WrittenTime) (z : Option WrittenZone) (t : Time),
      Time.parse (String.ofList (w.chars ++ WrittenZone.optionChars z)) = .ok t ↔
        w.InRange ∧ (∀ zone ∈ z, zone.InRange) ∧ w.Denotes t.timeOfDay ∧
          WrittenZone.Denotes z t.zone) := by
  refine ⟨fun text => ?_, fun w d => ?_, fun text => ?_, fun w z d => ?_, fun text => ?_,
    fun w z t => ?_⟩
  · exact WrittenDateTime.exists_parse_iff text
  · exact w.parse_chars_eq_ok_iff d
  · exact WrittenDate.exists_parse_iff text
  · exact w.parse_iff_midnight z d
  · exact WrittenTime.exists_parse_iff text
  · exact w.parse_chars_eq_ok_iff z t

end Temporal

end PolicyValues
