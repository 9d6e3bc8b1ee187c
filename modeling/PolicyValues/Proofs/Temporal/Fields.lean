import PolicyValues.Calendar.LocalTime

/-!
Clock readings and their fields. The fields of a reading pass their own check, and the check gives
the reading back: a reading is no more than its fields, down to whole milliseconds.
-/
namespace PolicyValues

namespace Day

theorem firstYear_le_year (day : Day) : firstYear ≤ day.date.year := by
  obtain ⟨_, high⟩ := CivilDate.marchStart_le_and_lt (day.number + CivilDate.epochShift)
  have first := day.low
  -- 1 January is day 306 of the March year before, which the last two months belong to.
  have start : firstDay + CivilDate.epochShift = CivilDate.marchStart (firstYear - 1) + 306 := by
    decide
  have least : firstYear - 1 ≤ CivilDate.marchYear (day.number + CivilDate.epochShift) := by
    refine Int.not_lt.1 fun lt => ?_
    have := CivilDate.marchStart_mono (Int.add_one_le_of_lt lt)
    omega
  simp only [date, CivilDate.ofDayNumber, CivilDate.ofMarch]
  split
  · rename_i early
    rcases Int.lt_or_eq_of_le least with later | last
    · omega
    · rw [← last] at early
      unfold CivilDate.monthOf at early
      omega
  · omega

theorem year_le_lastYear (day : Day) : day.date.year ≤ lastYear := by
  obtain ⟨low, _⟩ := CivilDate.marchStart_le_and_lt (day.number + CivilDate.epochShift)
  have last := day.high
  -- 31 December is day 305 of its March year, before the months of the next year begin.
  have finish : lastDay + CivilDate.epochShift = CivilDate.marchStart lastYear + 305 := by decide
  have greatest : CivilDate.marchYear (day.number + CivilDate.epochShift) ≤ lastYear := by
    refine Int.not_lt.1 fun lt => ?_
    have := CivilDate.marchStart_mono (Int.add_one_le_of_lt lt)
    have next := CivilDate.marchStart_succ lastYear
    split at next <;> omega
  simp only [date, CivilDate.ofDayNumber, CivilDate.ofMarch]
  split
  · exact greatest
  · rename_i late
    rcases Int.lt_or_eq_of_le greatest with earlier | same
    · omega
    · rw [same] at late low
      unfold CivilDate.monthOf at late
      omega

theorem date_valid (day : Day) : day.date.Valid := CivilDate.ofDayNumber_valid day.number

theorem ofDate?_date (day : Day) : ofDate? day.date = some day := by
  have number : day.date.dayNumber = day.number := CivilDate.dayNumber_ofDayNumber day.number
  simp only [ofDate?, number, day.low, day.high, and_self, dite_true, day.date_valid, if_true]

theorem date_epoch : epoch.date = ⟨1970, 1, 1⟩ := by decide

theorem date_of_ofDate? {date : CivilDate} {day : Day} (h : ofDate? date = some day) :
    day.date = date := by
  unfold ofDate? at h
  split at h
  · split at h
    · rename_i valid
      rw [← Option.some.inj h]
      exact CivilDate.ofDayNumber_dayNumber valid
    · simp only [reduceCtorEq] at h
  · simp only [reduceCtorEq] at h

theorem date_injective {a b : Day} (h : a.date = b.date) : a = b := by
  have := congrArg ofDate? h
  simpa only [ofDate?_date, Option.some.injEq] using this

end Day

namespace TimeOfDay

theorem hour_le (t : TimeOfDay) : t.hour ≤ 23 := by
  have := t.bound
  unfold hour
  omega

theorem minute_le (t : TimeOfDay) : t.minute ≤ 59 := by unfold minute; omega

theorem second_le (t : TimeOfDay) : t.second ≤ 59 := by unfold second; omega

theorem millisecond_le (t : TimeOfDay) : t.millisecond ≤ 999 := by unfold millisecond; omega

theorem ofFields_self (t : TimeOfDay) :
    ofFields t.hour t.minute t.second t.millisecond t.hour_le t.minute_le t.second_le
      t.millisecond_le = t := by
  obtain ⟨millis, bound⟩ := t
  simp only [ofFields, hour, minute, second, millisecond, TimeOfDay.mk.injEq]
  omega

section
variable {hour minute second millisecond : Nat} (hhour : hour ≤ 23) (hminute : minute ≤ 59)
  (hsecond : second ≤ 59) (hmillisecond : millisecond ≤ 999)

theorem hour_ofFields :
    (ofFields hour minute second millisecond hhour hminute hsecond hmillisecond).hour = hour := by
  simp only [TimeOfDay.hour, ofFields]
  omega

theorem minute_ofFields :
    (ofFields hour minute second millisecond hhour hminute hsecond hmillisecond).minute =
      minute := by
  simp only [TimeOfDay.minute, ofFields]
  omega

theorem second_ofFields :
    (ofFields hour minute second millisecond hhour hminute hsecond hmillisecond).second =
      second := by
  simp only [TimeOfDay.second, ofFields]
  omega

theorem millisecond_ofFields :
    (ofFields hour minute second millisecond hhour hminute hsecond hmillisecond).millisecond =
      millisecond := by
  simp only [TimeOfDay.millisecond, ofFields]
  omega

end

end TimeOfDay

def LocalTime.fields (t : LocalTime) : ClockFields where
  year := t.date.year
  month := t.date.month
  day := t.date.day
  hour := t.timeOfDay.hour
  minute := t.timeOfDay.minute
  second := t.timeOfDay.second
  millisecond := t.timeOfDay.millisecond

theorem LocalTime.check_fields (t : LocalTime) (subject : Subject) :
    t.fields.check subject = .ok t := by
  have low := t.day.firstYear_le_year
  have high := t.day.year_le_lastYear
  have valid := t.day.date_valid
  have day : Day.ofDate? ⟨t.date.year, t.date.month, t.date.day⟩ = some t.day := t.day.ofDate?_date
  unfold firstYear lastYear at *
  have year : ¬ (t.date.year < -2 ^ 31 ∨ 2 ^ 31 ≤ t.date.year) := by unfold LocalTime.date; omega
  have month : ¬ (t.date.month < 1 ∨ 12 < t.date.month) := by
    have := valid.month_pos
    have := valid.month_le
    unfold LocalTime.date
    omega
  simp only [fields, ClockFields.check, if_neg year, if_neg month, day,
    Nat.not_lt.2 t.timeOfDay.hour_le, Nat.not_lt.2 t.timeOfDay.minute_le,
    Nat.not_lt.2 t.timeOfDay.second_le, Nat.not_lt.2 t.timeOfDay.millisecond_le, dite_false,
    TimeOfDay.ofFields_self, ofDay_day_timeOfDay]

theorem ClockFields.check_eq_ok_iff {f : ClockFields} {subject : Subject} {t : LocalTime} :
    f.check subject = .ok t ↔ t.fields = f := by
  constructor
  · intro accepted
    unfold check at accepted
    simp only at accepted
    split at accepted
    · simp only [reduceCtorEq] at accepted
    split at accepted
    · simp only [reduceCtorEq] at accepted
    split at accepted
    · simp only [reduceCtorEq] at accepted
    rename_i day found
    split at accepted
    · simp only [reduceCtorEq] at accepted
    split at accepted
    · simp only [reduceCtorEq] at accepted
    split at accepted
    · simp only [reduceCtorEq] at accepted
    split at accepted
    · simp only [reduceCtorEq] at accepted
    have date := Day.date_of_ofDate? found
    rw [← Except.ok.inj accepted]
    simp only [LocalTime.fields, LocalTime.date, LocalTime.day_ofDay, LocalTime.timeOfDay_ofDay,
      date, TimeOfDay.hour_ofFields, TimeOfDay.minute_ofFields, TimeOfDay.second_ofFields,
      TimeOfDay.millisecond_ofFields]
  · rintro rfl
    exact t.check_fields subject

theorem LocalTime.ofMillis?_eq_some_iff {millis : Int} {t : LocalTime} :
    ofMillis? millis = some t ↔ t.millis = millis := by
  constructor
  · intro h
    unfold ofMillis? at h
    split at h
    · rw [← Option.some.inj h]
    · simp only [reduceCtorEq] at h
  · rintro rfl
    simp only [ofMillis?, t.low, t.high, and_self, dite_true]

theorem LocalTime.eq_iff_millis {t u : LocalTime} : t = u ↔ t.millis = u.millis := by
  obtain ⟨millis, _, _⟩ := t
  obtain ⟨millis', _, _⟩ := u
  rw [LocalTime.mk.injEq]

theorem LocalTime.exists_between {t u : LocalTime} {millis : Int}
    (h : t.millis ≤ millis ∧ millis ≤ u.millis ∨ u.millis ≤ millis ∧ millis ≤ t.millis) :
    ∃ v : LocalTime, v.millis = millis := by
  have low : firstDay * millisPerDay ≤ millis := by
    have := t.low
    have := u.low
    omega
  have high : millis < (lastDay + 1) * millisPerDay := by
    have := t.high
    have := u.high
    omega
  exact ⟨⟨millis, low, high⟩, rfl⟩

theorem LocalTime.shift?_zero (t : LocalTime) : t.shift? 0 = some t := by
  simp only [shift?, ofMillis?, Int.add_zero, t.low, t.high, and_self, dite_true]

end PolicyValues
