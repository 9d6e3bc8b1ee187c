import PolicyValues.DateAndTime
import PolicyValues.Proofs.Temporal.Fields
import PolicyValues.Proofs.Text.Digits

/-!
Dates, times of day and instants read back from their texts. Each reader takes exactly what the
printer of its part wrote, whatever follows that cannot extend it.
-/
namespace PolicyValues
open Text

namespace Zone

theorem canonicalize?_minutes (zone : Zone) : canonicalize? zone.minutes = some (zone, 0) := by
  obtain ⟨minutes, low, high⟩ := zone
  have far : ¬ (1440 < minutes ∨ minutes < -1440) := by omega
  simp only [canonicalize?, far, Int.not_lt.2 high, Int.not_le.2 low, dite_false]

def readSize (sign : Int) : Reader Int := fun cs => do
  let (hours, cs) ← Reader.digits 2 "time zone hours" cs
  let (_, cs) ← Reader.mark ':' "between time zone hours and minutes" cs
  let (minutes, rest) ← Reader.digits 2 "time zone minutes" cs
  if 59 < minutes then .error (.malformed cs (.zoneMinutes minutes))
  else .ok (sign * (hours * 60 + minutes : Nat), rest)

theorem readRaw_plus (cs : List Char) : readRaw ('+' :: cs) = readSize 1 cs := rfl

theorem readRaw_minus (cs : List Char) : readRaw ('-' :: cs) = readSize (-1) cs := rfl

def sizeChars (size : Nat) : List Char :=
  Digits.padded 2 (size / 60) ++ ':' :: Digits.padded 2 (size % 60)

theorem readSize_sizeChars (sign : Int) {size : Nat} (small : size < 6000) (rest : List Char) :
    readSize sign (sizeChars size ++ rest) = .ok (sign * size, rest) := by
  have hours (after : List Char) : Reader.digits 2 "time zone hours"
      (Digits.padded 2 (size / 60) ++ after) = .ok (size / 60, after) :=
    Reader.digits_padded _ (by decide) (by omega) (by omega) after
  have minutes (after : List Char) : Reader.digits 2 "time zone minutes"
      (Digits.padded 2 (size % 60) ++ after) = .ok (size % 60, after) :=
    Reader.digits_padded _ (by decide) (by omega) (by omega) after
  have within : ¬ 59 < size % 60 := by omega
  simp only [readSize, sizeChars, List.append_assoc, List.cons_append, bind, Except.bind, hours,
    Reader.mark_cons, minutes, within, if_false, Nat.div_add_mod']

theorem chars_eq (zone : Zone) :
    zone.chars =
      if zone.minutes = 0 then ['Z']
      else (if zone.minutes < 0 then '-' else '+') :: sizeChars zone.minutes.natAbs := rfl

theorem readRaw_chars (zone : Zone) (rest : List Char) :
    readRaw (zone.chars ++ rest) = .ok (zone.minutes, rest) := by
  have small : zone.minutes.natAbs < 6000 := by
    have := zone.low
    have := zone.high
    omega
  rw [chars_eq]
  by_cases zero : zone.minutes = 0
  · rw [if_pos zero, zero]
    rfl
  · rw [if_neg zero]
    by_cases west : zone.minutes < 0
    · rw [if_pos west, List.cons_append, readRaw_minus, readSize_sizeChars _ small]
      simp only [Except.ok.injEq, Prod.mk.injEq, and_true]
      omega
    · rw [if_neg west, List.cons_append, readRaw_plus, readSize_sizeChars _ small]
      simp only [Except.ok.injEq, Prod.mk.injEq, and_true]
      omega

theorem chars_ne_nil (zone : Zone) : zone.chars ≠ [] := by
  rw [chars_eq]
  split <;> simp only [ne_eq, reduceCtorEq, not_false_eq_true]

theorem readOptional_zoneChars (zone : Option Zone) :
    readOptional (DateTime.zoneChars zone) = .ok ((zone, 0), []) := by
  cases zone with
  | none => rfl
  | some zone =>
    have raw := readRaw_chars zone []
    rw [List.append_nil] at raw
    simp only [DateTime.zoneChars]
    unfold readOptional
    split
    · exact absurd ‹_› zone.chars_ne_nil
    · simp only [raw, bind, Except.bind, canonicalize?_minutes]

theorem stops_zoneChars {p : Char → Bool} (hZ : p 'Z' = false) (hplus : p '+' = false)
    (hminus : p '-' = false) (zone : Option Zone) : Stops p (DateTime.zoneChars zone) := by
  cases zone with
  | none => exact stops_nil p
  | some zone =>
    rw [DateTime.zoneChars, chars_eq]
    split
    · exact stops_cons.2 hZ
    · split
      · exact stops_cons.2 hminus
      · exact stops_cons.2 hplus

end Zone

namespace DateTime

structure Ends (rest : List Char) : Prop where
  digit : Stops Char.isDigit rest
  point : Stops (· == '.') rest

theorem ends_zoneChars (zone : Option Zone) : Ends (zoneChars zone) where
  digit := Zone.stops_zoneChars rfl rfl rfl zone
  point := Zone.stops_zoneChars rfl rfl rfl zone

theorem readDate_dateChars (day : Day) (rest : List Char) :
    readDate (dateChars day.date ++ rest) =
      .ok ((day.date.year, day.date.month, day.date.day), rest) := by
  have first := day.firstYear_le_year
  have last := day.year_le_lastYear
  unfold firstYear lastYear at *
  have month_le := day.date_valid.month_le
  have day_le := day.date_valid.day_le
  have length_le : CivilDate.monthLength day.date.year day.date.month ≤ 31 := by
    unfold CivilDate.monthLength
    split
    · split <;> omega
    · split <;> omega
  -- Years of the calendar have at most six digits.
  have year (after : List Char) : Reader.signed 4 "year" (yearChars day.date.year ++ '-' :: after) =
      .ok (day.date.year, '-' :: after) :=
    Reader.signed_yearChars "year" (by omega) (stops_cons.2 rfl)
  have month (after : List Char) : Reader.digits 2 "month"
      (Digits.padded 2 day.date.month ++ after) = .ok (day.date.month, after) :=
    Reader.digits_padded _ (by decide) (by omega) (by omega) after
  have dayOfMonth (after : List Char) : Reader.digits 2 "day"
      (Digits.padded 2 day.date.day ++ after) = .ok (day.date.day, after) :=
    Reader.digits_padded _ (by decide) (by omega) (by omega) after
  simp only [readDate, dateChars, List.append_assoc, List.cons_append, bind, Except.bind, year,
    Reader.mark_cons, month, dayOfMonth, pure, Except.pure]

theorem readMillis_chars {millis : Nat} (h : millis ≤ 999) {rest : List Char} (hrest : Ends rest) :
    readMillis ((if millis = 0 then [] else '.' :: Digits.padded 3 millis) ++ rest) =
      .ok (millis, rest) := by
  by_cases zero : millis = 0
  · rw [if_pos zero, List.nil_append]
    unfold readMillis
    split
    · exact absurd hrest.point (by simp [Stops])
    · rw [zero]
  · rw [if_neg zero, List.cons_append]
    have digits := Reader.digits_padded "millisecond" (by decide) (show millis < 10 ^ 3 by omega)
      (by omega) rest
    simp only [readMillis, digits, bind, Except.bind]
    rw [if_neg (by rw [hrest.digit]; decide)]

theorem readTime_chars (t : TimeOfDay) {rest : List Char} (hrest : Ends rest) :
    readTime (t.chars ++ rest) = .ok ((t.hour, t.minute, t.second, t.millisecond), rest) := by
  have hour (after : List Char) : Reader.digits 2 "hour" (Digits.padded 2 t.hour ++ after) =
      .ok (t.hour, after) := by
    have := t.hour_le
    exact Reader.digits_padded _ (by decide) (by omega) (by omega) after
  have minute (after : List Char) : Reader.digits 2 "minute" (Digits.padded 2 t.minute ++ after) =
      .ok (t.minute, after) := by
    have := t.minute_le
    exact Reader.digits_padded _ (by decide) (by omega) (by omega) after
  have second (after : List Char) : Reader.digits 2 "second" (Digits.padded 2 t.second ++ after) =
      .ok (t.second, after) := by
    have := t.second_le
    exact Reader.digits_padded _ (by decide) (by omega) (by omega) after
  simp only [readTime, TimeOfDay.chars, List.append_assoc, List.cons_append, bind, Except.bind,
    hour, Reader.mark_cons, minute, second, readMillis_chars t.millisecond_le hrest, pure,
    Except.pure]

theorem readFields_chars (d : DateTime) :
    readFields d.chars = .ok ((d.wall.fields, d.zone, 0), []) := by
  have date := readDate_dateChars d.wall.day
  simp only [readFields, chars, wallChars, LocalTime.date, List.append_assoc, List.cons_append,
    bind, Except.bind, date, Reader.mark_cons, readTime_chars _ (ends_zoneChars d.zone),
    Zone.readOptional_zoneChars, pure, Except.pure]
  rfl

theorem ofWritten_fields (subject : Subject) (wall : LocalTime) (zone : Option Zone) :
    ofWritten subject wall.fields zone 0 = .ok ⟨wall, zone⟩ := by
  simp only [ofWritten, wall.check_fields, bind, Except.bind, Int.zero_mul, wall.shift?_zero]

theorem parse_text (d : DateTime) : parse d.text = .ok d := by
  unfold parse text
  rw [String.toList_ofList, Reader.whole_eq_ok_iff.2 (readFields_chars d)]
  exact ofWritten_fields .dateTime d.wall d.zone

end DateTime

namespace Date

theorem toDateTime_injective {d e : Date} (h : d.toDateTime = e.toDateTime) : d = e := by
  cases d
  cases e
  cases h
  rfl

theorem toDateTime_ofDateTime {d : DateTime} (h : d.wall.timeOfDay = .midnight) :
    (ofDateTime d).toDateTime = d := by
  obtain ⟨wall, zone⟩ := d
  simp only at h
  simp only [ofDateTime, ← h, LocalTime.ofDay_day_timeOfDay]

theorem ofDateTime_toDateTime (d : Date) : ofDateTime d.toDateTime = d :=
  toDateTime_injective (toDateTime_ofDateTime d.midnight)

theorem wallChars_eq (d : Date) :
    d.wallChars = DateTime.dateChars d.civil ++ "T00:00:00".toList := by
  simp only [DateTime.wallChars, d.midnight]
  rfl

theorem plainChars_eq (d : Date) : d.plainChars = DateTime.dateChars d.civil := by
  have length : d.wallChars.length - "T00:00:00".length = (DateTime.dateChars d.civil).length := by
    rw [wallChars_eq, List.length_append, String.length_toList, Nat.add_sub_cancel]
  rw [plainChars, length, wallChars_eq, List.take_left]

theorem readFields_chars (d : Date) :
    readFields d.chars = .ok ((d.wall.fields, d.zone, 0), []) := by
  have date := DateTime.readDate_dateChars d.wall.day (DateTime.zoneChars d.zone)
  simp only [readFields, chars, plainChars_eq, civil, LocalTime.date, bind, Except.bind, date,
    Zone.readOptional_zoneChars, pure, Except.pure, LocalTime.fields, d.midnight]
  rfl

theorem parse_text (d : Date) : parse d.text = .ok d := by
  have written := DateTime.ofWritten_fields .date d.wall d.zone
  unfold parse text
  rw [String.toList_ofList, Reader.whole_eq_ok_iff.2 (readFields_chars d)]
  simp only [written, Except.map]
  exact congrArg Except.ok (ofDateTime_toDateTime d)

end Date

namespace Time

theorem toDateTime_injective {t u : Time} (h : t.toDateTime = u.toDateTime) : t = u := by
  cases t
  cases u
  cases h
  rfl

theorem toDateTime_ofDateTime {d : DateTime} (h : d.wall.day = .epoch) :
    (ofDateTime d).toDateTime = d := by
  obtain ⟨wall, zone⟩ := d
  simp only at h
  simp only [ofDateTime, ← h, LocalTime.ofDay_day_timeOfDay]

theorem ofDateTime_toDateTime (t : Time) : ofDateTime t.toDateTime = t :=
  toDateTime_injective (toDateTime_ofDateTime t.pinned)

theorem ofFields_self (t : Time) : ofFields t.timeOfDay.hour t.timeOfDay.minute t.timeOfDay.second
    t.timeOfDay.millisecond t.zone = .ok t := by
  have fields : t.wall.fields =
      { year := 1970, month := 1, day := 1, hour := t.timeOfDay.hour, minute := t.timeOfDay.minute
        second := t.timeOfDay.second, millisecond := t.timeOfDay.millisecond } := by
    simp only [LocalTime.fields, LocalTime.date, t.pinned]
    rfl
  have check := t.wall.check_fields .time
  rw [fields] at check
  simp only [ofFields, check, Except.map]
  exact congrArg Except.ok (ofDateTime_toDateTime t)

theorem readFields_chars (t : Time) :
    readFields t.chars = .ok (((t.timeOfDay.hour, t.timeOfDay.minute, t.timeOfDay.second,
      t.timeOfDay.millisecond), t.zone), []) := by
  simp only [readFields, chars, plainChars, bind, Except.bind,
    DateTime.readTime_chars _ (DateTime.ends_zoneChars t.zone), Zone.readOptional_zoneChars, pure,
    Except.pure]

theorem parse_text (t : Time) : parse t.text = .ok t := by
  unfold parse text
  rw [String.toList_ofList, Reader.whole_eq_ok_iff.2 (readFields_chars t)]
  exact t.ofFields_self

theorem check_of_ofFields {hour minute second millisecond : Nat} {zone : Option Zone} {t : Time}
    (h : ofFields hour minute second millisecond zone = .ok t) :
    ClockFields.check .time
        { year := 1970, month := 1, day := 1, hour, minute, second, millisecond } = .ok t.wall ∧
      t.zone = zone := by
  obtain ⟨wall, checked, rfl⟩ := map_eq_ok_iff.1 h
  have fields := ClockFields.check_eq_ok_iff.1 checked
  have epoch : wall.day = .epoch := by
    have date : (⟨wall.fields.year, wall.fields.month, wall.fields.day⟩ : CivilDate) =
        Day.epoch.date := by
      rw [fields, Day.date_epoch]
    exact Day.date_injective date
  have kept := toDateTime_ofDateTime (d := ⟨wall, zone⟩) epoch
  rw [kept]
  exact ⟨checked, rfl⟩

end Time

end PolicyValues
