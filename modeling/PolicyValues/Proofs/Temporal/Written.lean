import PolicyValues.Proofs.Calendar.Succession
import PolicyValues.Proofs.Temporal.RoundTrip
import PolicyValues.Proofs.Text.Written

/-!
The written forms of zones, dates and times of day, with what each of them says. Readers take
exactly these forms from the front of a text.
-/
namespace PolicyValues
open Text

namespace Zone

def daysAhead (raw : Int) : Int := (raw + 719) / 1440

theorem canonicalize?_eq_some_iff {raw days : Int} {zone : Zone} :
    canonicalize? raw = some (zone, days) ↔ (-1440 ≤ raw ∧ raw ≤ 1440) ∧
      days = -daysAhead raw ∧ zone.minutes = raw - 1440 * daysAhead raw := by
  obtain ⟨minutes, low, high⟩ := zone
  unfold canonicalize? daysAhead
  by_cases far : 1440 < raw ∨ raw < -1440
  · simp only [far, dite_true, reduceCtorEq, false_iff]
    omega
  · by_cases ahead : 720 < raw
    · simp only [far, ahead, dite_true, dite_false, Option.some.injEq, Prod.mk.injEq, Zone.mk.injEq]
      omega
    · by_cases behind : raw ≤ -720
      · simp only [far, ahead, behind, dite_true, dite_false, Option.some.injEq, Prod.mk.injEq,
          Zone.mk.injEq]
        omega
      · simp only [far, ahead, behind, dite_false, Option.some.injEq, Prod.mk.injEq, Zone.mk.injEq]
        omega

end Zone

inductive WrittenZone where
  | utc
  | offset (minus : Bool) (hours minutes : Digits.Field 2)

namespace WrittenZone

def chars : WrittenZone → List Char
  | utc => ['Z']
  | offset minus hours minutes =>
    (if minus then '-' else '+') :: (hours.chars ++ ':' :: minutes.chars)

def east : WrittenZone → Int
  | utc => 0
  | offset minus hours minutes =>
    (if minus then -1 else 1) * (60 * hours.value + minutes.value : Nat)

def Lexical : WrittenZone → Prop
  | utc => True
  | offset _ _ minutes => minutes.value ≤ 59

instance : DecidablePred Lexical
  | utc => isTrue trivial
  | offset _ _ minutes => inferInstanceAs (Decidable (minutes.value ≤ 59))

def InRange : WrittenZone → Prop
  | utc => True
  | offset _ hours minutes => minutes.value ≤ 59 ∧ 60 * hours.value + minutes.value ≤ 1440

/-- The days by which wrapping the offset into half a day moves the date. -/
def dayShift (w : WrittenZone) : Int :=
  if 720 < w.east then -1 else if w.east ≤ -720 then 1 else 0

def optionChars (w : Option WrittenZone) : List Char := w.elim [] chars

def optionEast (w : Option WrittenZone) : Int := w.elim 0 east

def optionShift (w : Option WrittenZone) : Int := w.elim 0 dayShift

def moved (w : Option WrittenZone) (date : CivilDate) : CivilDate :=
  if 720 < optionEast w then date.previous
  else if optionEast w ≤ -720 then date.next
  else date

def Denotes (w : Option WrittenZone) (zone : Option Zone) : Prop :=
  zone.map (·.minutes) = w.map fun w => w.east + 1440 * w.dayShift

end WrittenZone

@[ext]
structure WrittenDate where
  minus : Bool
  year : List Char
  month : Digits.Field 2
  day : Digits.Field 2
  year_digits : ∀ c ∈ year, c.isDigit = true
  year_length : 4 ≤ year.length

namespace WrittenDate

def ofNat (minus : Bool) (year : Nat) (month day : Digits.Field 2)
    (enough : 4 ≤ (Digits.ofNat year).length) : WrittenDate where
  minus := minus
  year := Digits.ofNat year
  month := month
  day := day
  year_digits := Digits.isDigit_of_mem_ofNat
  year_length := enough

def chars (w : WrittenDate) : List Char :=
  Digits.signChars w.minus ++ w.year ++ '-' :: (w.month.chars ++ '-' :: w.day.chars)

def civil (w : WrittenDate) : CivilDate where
  year := if w.minus then -(Digits.value w.year : Int) else Digits.value w.year
  month := w.month.value
  day := w.day.value

end WrittenDate

@[ext]
structure WrittenTime where
  hour : Digits.Field 2
  minute : Digits.Field 2
  second : Digits.Field 2
  fraction : Option (Digits.Field 3)

namespace WrittenTime

def fractionChars : Option (Digits.Field 3) → List Char
  | none => []
  | some digits => '.' :: digits.chars

def chars (w : WrittenTime) : List Char :=
  w.hour.chars ++ ':' :: (w.minute.chars ++ ':' :: (w.second.chars ++ fractionChars w.fraction))

def millisecond (w : WrittenTime) : Nat := w.fraction.elim 0 Digits.Field.value

structure InRange (w : WrittenTime) : Prop where
  hour : w.hour.value ≤ 23
  minute : w.minute.value ≤ 59
  second : w.second.value ≤ 59

structure Denotes (w : WrittenTime) (t : TimeOfDay) : Prop where
  hour : t.hour = w.hour.value
  minute : t.minute = w.minute.value
  second : t.second = w.second.value
  millisecond : t.millisecond = w.millisecond

theorem millisecond_le (w : WrittenTime) : w.millisecond ≤ 999 := by
  obtain ⟨_, _, _, _ | digits⟩ := w
  · exact Nat.zero_le 999
  · exact Nat.le_of_lt_succ digits.value_lt

end WrittenTime

/-! ## Zones -/

namespace WrittenZone

theorem InRange.lexical {w : WrittenZone} (h : w.InRange) : w.Lexical := by
  cases w with
  | utc => trivial
  | offset _ _ _ => exact h.1

theorem readRaw_chars {w : WrittenZone} (h : w.Lexical) (rest : List Char) :
    Zone.readRaw (w.chars ++ rest) = .ok (w.east, rest) := by
  cases w with
  | utc => rfl
  | offset minus hours minutes =>
    have hour (after : List Char) : Reader.digits 2 "time zone hours" (hours.chars ++ after) =
        .ok (hours.value, after) := (Reader.digits_eq_ok_iff (by decide)).2 ⟨hours, rfl, rfl⟩
    have minute (after : List Char) : Reader.digits 2 "time zone minutes" (minutes.chars ++ after) =
        .ok (minutes.value, after) := (Reader.digits_eq_ok_iff (by decide)).2 ⟨minutes, rfl, rfl⟩
    have size (sign : Int) : Zone.readSize sign (hours.chars ++ ':' :: minutes.chars ++ rest) =
        .ok (sign * (60 * hours.value + minutes.value : Nat), rest) := by
      simp only [Zone.readSize, List.append_assoc, List.cons_append, bind, Except.bind, hour,
        Reader.mark_cons, minute, Nat.not_lt.2 h, if_false, Nat.mul_comm hours.value]
    cases minus with
    | true => exact size (-1)
    | false => exact size 1

theorem of_readSize {sign : Int} {cs rest : List Char} {raw : Int}
    (h : Zone.readSize sign cs = .ok (raw, rest)) :
    ∃ hours minutes : Digits.Field 2, cs = hours.chars ++ ':' :: minutes.chars ++ rest ∧
      minutes.value ≤ 59 ∧ raw = sign * (60 * hours.value + minutes.value : Nat) := by
  simp only [Zone.readSize, bind_eq_ok_iff, Prod.exists] at h
  obtain ⟨_, _, hour, _, _, colon, _, _, minute, size⟩ := h
  obtain ⟨hours, rfl, rfl⟩ := (Reader.digits_eq_ok_iff (by decide)).1 hour
  obtain rfl := Reader.mark_eq_ok_iff.1 colon
  obtain ⟨minutes, rfl, rfl⟩ := (Reader.digits_eq_ok_iff (by decide)).1 minute
  split at size
  · simp only [reduceCtorEq] at size
  · simp only [Except.ok.injEq, Prod.mk.injEq] at size
    obtain ⟨rfl, rfl⟩ := size
    refine ⟨hours, minutes, ?_, Nat.not_lt.1 ‹_›, ?_⟩
    · rw [List.append_assoc, List.cons_append]
    · rw [Nat.mul_comm]

theorem of_readRaw {cs rest : List Char} {raw : Int} (h : Zone.readRaw cs = .ok (raw, rest)) :
    ∃ w : WrittenZone, cs = w.chars ++ rest ∧ raw = w.east ∧
      (-1440 ≤ raw → raw ≤ 1440 → w.InRange) := by
  have sized (minus : Bool) {sign : Int} {sized rest : List Char}
      (same : sign = if minus then -1 else 1) (h : Zone.readSize sign sized = .ok (raw, rest)) :
      ∃ w : WrittenZone, (if minus then '-' else '+') :: sized = w.chars ++ rest ∧ raw = w.east ∧
        (-1440 ≤ raw → raw ≤ 1440 → w.InRange) := by
    obtain ⟨hours, minutes, rfl, few, rfl⟩ := of_readSize h
    refine ⟨offset minus hours minutes, rfl, by rw [same]; rfl, fun low high => ⟨few, ?_⟩⟩
    rw [same] at low high
    cases minus <;> simp only [if_true, if_false, Bool.false_eq_true] at low high <;> omega
  cases cs with
  | nil => simp only [Zone.readRaw, bind, Except.bind, reduceCtorEq] at h
  | cons c more =>
    by_cases zulu : c = 'Z'
    · subst zulu
      simp only [Zone.readRaw, Except.ok.injEq, Prod.mk.injEq] at h
      obtain ⟨rfl, rfl⟩ := h
      exact ⟨utc, rfl, rfl, fun _ _ => trivial⟩
    · by_cases plus : c = '+'
      · subst plus
        exact sized false rfl h
      · by_cases minus : c = '-'
        · subst minus
          exact sized true rfl h
        · simp only [Zone.readRaw, bind, Except.bind, List.cons.injEq, zulu, plus, minus, false_and,
            imp_self, implies_true, reduceCtorEq] at h

theorem canonicalize?_eq_some_iff {w : WrittenZone} {zone : Zone} {days : Int} :
    Zone.canonicalize? w.east = some (zone, days) ↔
      (-1440 ≤ w.east ∧ w.east ≤ 1440) ∧ days = w.dayShift ∧
        zone.minutes = w.east + 1440 * w.dayShift := by
  rw [Zone.canonicalize?_eq_some_iff]
  refine and_congr_right fun bounds => ?_
  have shift : w.dayShift = -Zone.daysAhead w.east := by
    unfold dayShift Zone.daysAhead
    omega
  rw [shift, Int.mul_neg, ← Int.sub_eq_add_neg]

theorem InRange.bounds {w : WrittenZone} (h : w.InRange) : -1440 ≤ w.east ∧ w.east ≤ 1440 := by
  cases w with
  | utc => decide
  | offset minus hours minutes =>
    obtain ⟨_, day⟩ := h
    unfold east
    cases minus <;> simp only [if_true, if_false, Bool.false_eq_true] <;> omega

theorem readOptional_eq_ok_iff {cs : List Char} {zone : Option Zone} {days : Int} :
    Zone.readOptional cs = .ok ((zone, days), []) ↔
      ∃ w : Option WrittenZone, cs = optionChars w ∧ (∀ z ∈ w, z.InRange) ∧
        days = optionShift w ∧ Denotes w zone := by
  constructor
  · intro h
    unfold Zone.readOptional at h
    split at h
    · simp only [Except.ok.injEq, Prod.mk.injEq, and_true] at h
      obtain ⟨rfl, rfl⟩ := h
      refine ⟨none, rfl, ?_, rfl, rfl⟩
      simp only [Option.mem_def, reduceCtorEq, false_implies, implies_true]
    · obtain ⟨⟨raw, rest⟩, read, canonical⟩ := bind_eq_ok_iff.1 h
      obtain ⟨w, rfl, rfl, inRange⟩ := of_readRaw read
      simp only at canonical
      split at canonical
      · rename_i z days found
        obtain ⟨bounds, rfl, minutes⟩ := canonicalize?_eq_some_iff.1 found
        simp only [Except.ok.injEq, Prod.mk.injEq] at canonical
        obtain ⟨⟨rfl, rfl⟩, rfl⟩ := canonical
        refine ⟨some w, List.append_nil _, ?_, rfl, congrArg some minutes⟩
        intro z mem
        rw [← Option.some.inj mem]
        exact inRange bounds.1 bounds.2
      · simp only [reduceCtorEq] at canonical
  · rintro ⟨w, rfl, inRange, rfl, denotes⟩
    cases w with
    | none =>
      obtain rfl : zone = none := Option.map_eq_none_iff.1 denotes
      rfl
    | some w =>
      obtain ⟨z, rfl, minutes⟩ := Option.map_eq_some_iff.1 denotes
      have bounds := (inRange w rfl).bounds
      have found : Zone.canonicalize? w.east = some (z, w.dayShift) :=
        canonicalize?_eq_some_iff.2 ⟨bounds, rfl, minutes⟩
      have raw := readRaw_chars (inRange w rfl).lexical []
      rw [List.append_nil] at raw
      unfold Zone.readOptional optionChars
      split
      · rename_i empty
        cases w <;> simp only [Option.elim_some, chars, reduceCtorEq] at empty
      · simp only [Option.elim_some, raw, bind, Except.bind, found]
        rfl

theorem stops_optionChars {p : Char → Bool} (hZ : p 'Z' = false) (hplus : p '+' = false)
    (hminus : p '-' = false) (w : Option WrittenZone) : Stops p (optionChars w) := by
  cases w with
  | none => exact stops_nil p
  | some w =>
    cases w with
    | utc => exact stops_cons.2 hZ
    | offset minus hours minutes =>
      cases minus with
      | true => exact stops_cons.2 hminus
      | false => exact stops_cons.2 hplus

theorem ends_optionChars (w : Option WrittenZone) : DateTime.Ends (optionChars w) where
  digit := stops_optionChars rfl rfl rfl w
  point := stops_optionChars rfl rfl rfl w

theorem optionChars_injective {v w : Option WrittenZone} (h : optionChars v = optionChars w) :
    v = w := by
  have offsets {minus minus' : Bool} {hours minutes hours' minutes' : Digits.Field 2}
      (h : (offset minus hours minutes).chars = (offset minus' hours' minutes').chars) :
      offset minus hours minutes = offset minus' hours' minutes' := by
    simp only [chars, List.cons.injEq] at h
    obtain ⟨sign, size⟩ := h
    obtain ⟨hour, behind⟩ := List.append_inj size (hours.length_eq.trans hours'.length_eq.symm)
    obtain rfl := Digits.Field.ext hour
    obtain rfl := Digits.Field.ext (List.tail_eq_of_cons_eq behind)
    obtain rfl : minus = minus' := by cases minus <;> cases minus' <;> simp_all
    rfl
  rcases v with _ | _ | ⟨minus, hours, minutes⟩ <;> rcases w with _ | _ | ⟨minus', hours', minutes'⟩
  all_goals simp only [optionChars, Option.elim_none, Option.elim_some] at h
  · rfl
  · simp only [chars, reduceCtorEq] at h
  · simp only [chars, reduceCtorEq] at h
  · simp only [chars, reduceCtorEq] at h
  · rfl
  · cases minus' <;> simp [chars] at h
  · simp only [chars, reduceCtorEq] at h
  · cases minus <;> simp [chars] at h
  · exact congrArg some (offsets h)

theorem moved_valid (w : Option WrittenZone) {date : CivilDate} (valid : date.Valid) :
    (moved w date).Valid := by
  unfold moved
  split
  · exact CivilDate.previous_valid valid
  · split
    · exact CivilDate.next_valid valid
    · exact valid

theorem dayNumber_moved (w : Option WrittenZone) {date : CivilDate} (valid : date.Valid) :
    (moved w date).dayNumber = date.dayNumber + optionShift w := by
  have shift : optionShift w =
      if 720 < optionEast w then -1 else if optionEast w ≤ -720 then 1 else 0 := by
    cases w <;> rfl
  rw [shift, moved]
  split
  · exact CivilDate.dayNumber_previous valid
  · split
    · exact CivilDate.dayNumber_next valid
    · exact (Int.add_zero _).symm

end WrittenZone

/-! ## Dates -/

namespace WrittenDate

theorem readDate_chars (w : WrittenDate) (small : Digits.value w.year < 2 ^ 63) (rest : List Char) :
    DateTime.readDate (w.chars ++ rest) =
      .ok ((w.civil.year, w.civil.month, w.civil.day), rest) := by
  have year (after : List Char) : Reader.signed 4 "year"
      (Digits.signChars w.minus ++ (w.year ++ '-' :: after)) =
        .ok (w.civil.year, '-' :: after) :=
    (Reader.signed_eq_ok_iff (by decide)).2 ⟨w.minus, w.year, (List.append_assoc _ _ _).symm,
      w.year_digits, w.year_length, stops_cons.2 rfl, small, rfl⟩
  have month (after : List Char) : Reader.digits 2 "month" (w.month.chars ++ after) =
      .ok (w.civil.month, after) := (Reader.digits_eq_ok_iff (by decide)).2 ⟨w.month, rfl, rfl⟩
  have day (after : List Char) : Reader.digits 2 "day" (w.day.chars ++ after) =
      .ok (w.civil.day, after) := (Reader.digits_eq_ok_iff (by decide)).2 ⟨w.day, rfl, rfl⟩
  simp only [DateTime.readDate, chars, List.append_assoc, List.cons_append, bind, Except.bind, year,
    Reader.mark_cons, month, day, pure, Except.pure]

theorem of_readDate {cs rest : List Char} {year : Int} {month day : Nat}
    (h : DateTime.readDate cs = .ok ((year, month, day), rest)) :
    ∃ w : WrittenDate, cs = w.chars ++ rest ∧ w.civil = ⟨year, month, day⟩ ∧
      Digits.value w.year < 2 ^ 63 := by
  simp only [DateTime.readDate, bind_eq_ok_iff, Prod.exists, pure, Except.pure, Except.ok.injEq,
    Prod.mk.injEq] at h
  obtain ⟨_, _, signed, _, _, dash, _, _, months, _, _, dash', _, _, days, ⟨rfl, rfl, rfl⟩,
    rfl⟩ := h
  obtain ⟨minus, ds, rfl, digits, enough, _, small, rfl⟩ :=
    (Reader.signed_eq_ok_iff (by decide)).1 signed
  obtain rfl := Reader.mark_eq_ok_iff.1 dash
  obtain ⟨month, rfl, rfl⟩ := (Reader.digits_eq_ok_iff (by decide)).1 months
  obtain rfl := Reader.mark_eq_ok_iff.1 dash'
  obtain ⟨day, rfl, rfl⟩ := (Reader.digits_eq_ok_iff (by decide)).1 days
  refine ⟨⟨minus, ds, month, day, digits, enough⟩, ?_, rfl, small⟩
  simp only [chars, List.append_assoc, List.cons_append]

theorem year_lt_of_inCalendar {w : WrittenDate} (h : w.civil.InCalendar) :
    Digits.value w.year < 2 ^ 63 := by
  have first := h.first
  have last := h.last
  unfold civil firstYear lastYear at *
  simp only at first last
  split at first <;> simp_all only [if_true, if_false, Bool.false_eq_true] <;> omega

theorem append_inj {v w : WrittenDate} {rest rest' : List Char}
    (h : v.chars ++ rest = w.chars ++ rest') : v = w ∧ rest = rest' := by
  obtain ⟨minus, year, month, day, digits, length⟩ := v
  obtain ⟨minus', year', month', day', digits', length'⟩ := w
  have signless (ds after : List Char) (digits : ∀ c ∈ ds, c.isDigit = true)
      (length : 4 ≤ ds.length) : (ds ++ after).head? ≠ some '-' := by
    obtain ⟨d, ds, rfl⟩ := List.exists_cons_of_ne_nil (List.ne_nil_of_length_pos
      (Nat.lt_of_lt_of_le (by decide) length))
    simp only [List.cons_append, List.head?_cons, ne_eq, Option.some.injEq]
    rintro rfl
    exact absurd (digits '-' List.mem_cons_self) (by decide)
  simp only [chars, List.append_assoc, List.cons_append] at h
  obtain ⟨rfl, unsigned⟩ : minus = minus' ∧
      year ++ '-' :: (month.chars ++ '-' :: (day.chars ++ rest)) =
        year' ++ '-' :: (month'.chars ++ '-' :: (day'.chars ++ rest')) := by
    cases minus <;> cases minus'
    · exact ⟨rfl, h⟩
    · exact absurd (congrArg List.head? h) (signless year _ digits length)
    · exact absurd (congrArg List.head? h).symm (signless year' _ digits' length')
    · exact ⟨rfl, List.tail_eq_of_cons_eq h⟩
  obtain ⟨rfl, yearless⟩ := eq_of_append_of_stops digits (stops_cons.2 rfl) digits'
    (stops_cons.2 rfl) unsigned
  obtain ⟨months, monthless⟩ := List.append_inj (List.tail_eq_of_cons_eq yearless)
    (month.length_eq.trans month'.length_eq.symm)
  obtain ⟨days, rfl⟩ := List.append_inj (List.tail_eq_of_cons_eq monthless)
    (day.length_eq.trans day'.length_eq.symm)
  obtain rfl := Digits.Field.ext months
  obtain rfl := Digits.Field.ext days
  exact ⟨rfl, rfl⟩

end WrittenDate

/-! ## Times of day -/

namespace WrittenTime

theorem readMillis_fractionChars (fraction : Option (Digits.Field 3)) {rest : List Char}
    (ends : DateTime.Ends rest) :
    DateTime.readMillis (fractionChars fraction ++ rest) =
      .ok (fraction.elim 0 Digits.Field.value, rest) := by
  cases fraction with
  | none =>
    have point := ends.point
    rw [fractionChars, List.nil_append]
    unfold DateTime.readMillis
    split
    · rw [stops_cons] at point
      exact absurd point (by decide)
    · rfl
  | some digits =>
    have read : Reader.digits 3 "millisecond" (digits.chars ++ rest) = .ok (digits.value, rest) :=
      (Reader.digits_eq_ok_iff (by decide)).2 ⟨digits, rfl, rfl⟩
    have stops := ends.digit
    unfold Stops at stops
    simp only [fractionChars, List.cons_append, DateTime.readMillis, read, bind, Except.bind, stops,
      Bool.false_eq_true, if_false, Option.elim_some]

theorem of_readMillis {cs rest : List Char} {millis : Nat}
    (h : DateTime.readMillis cs = .ok (millis, rest)) :
    ∃ fraction : Option (Digits.Field 3), cs = fractionChars fraction ++ rest ∧
      millis = fraction.elim 0 Digits.Field.value := by
  unfold DateTime.readMillis at h
  split at h
  · obtain ⟨⟨_, _⟩, read, checked⟩ := bind_eq_ok_iff.1 h
    obtain ⟨digits, rfl, rfl⟩ := (Reader.digits_eq_ok_iff (by decide)).1 read
    simp only at checked
    split at checked
    · simp only [reduceCtorEq] at checked
    · simp only [Except.ok.injEq, Prod.mk.injEq] at checked
      obtain ⟨rfl, rfl⟩ := checked
      exact ⟨some digits, rfl, rfl⟩
  · simp only [Except.ok.injEq, Prod.mk.injEq] at h
    obtain ⟨rfl, rfl⟩ := h
    exact ⟨none, rfl, rfl⟩

theorem readTime_chars (w : WrittenTime) {rest : List Char} (ends : DateTime.Ends rest) :
    DateTime.readTime (w.chars ++ rest) =
      .ok ((w.hour.value, w.minute.value, w.second.value, w.millisecond), rest) := by
  have hour (after : List Char) : Reader.digits 2 "hour" (w.hour.chars ++ after) =
      .ok (w.hour.value, after) := (Reader.digits_eq_ok_iff (by decide)).2 ⟨w.hour, rfl, rfl⟩
  have minute (after : List Char) : Reader.digits 2 "minute" (w.minute.chars ++ after) =
      .ok (w.minute.value, after) := (Reader.digits_eq_ok_iff (by decide)).2 ⟨w.minute, rfl, rfl⟩
  have second (after : List Char) : Reader.digits 2 "second" (w.second.chars ++ after) =
      .ok (w.second.value, after) := (Reader.digits_eq_ok_iff (by decide)).2 ⟨w.second, rfl, rfl⟩
  simp only [DateTime.readTime, chars, List.append_assoc, List.cons_append, bind, Except.bind, hour,
    Reader.mark_cons, minute, second, readMillis_fractionChars w.fraction ends, pure, Except.pure,
    millisecond]

theorem of_readTime {cs rest : List Char} {hour minute second millis : Nat}
    (h : DateTime.readTime cs = .ok ((hour, minute, second, millis), rest)) :
    ∃ w : WrittenTime, cs = w.chars ++ rest ∧ w.hour.value = hour ∧ w.minute.value = minute ∧
      w.second.value = second ∧ w.millisecond = millis := by
  simp only [DateTime.readTime, bind_eq_ok_iff, Prod.exists, pure, Except.pure, Except.ok.injEq,
    Prod.mk.injEq] at h
  obtain ⟨_, _, hours, _, _, colon, _, _, minutes, _, _, colon', _, _, seconds, _, _, read,
    ⟨rfl, rfl, rfl, rfl⟩, rfl⟩ := h
  obtain ⟨hour, rfl, rfl⟩ := (Reader.digits_eq_ok_iff (by decide)).1 hours
  obtain rfl := Reader.mark_eq_ok_iff.1 colon
  obtain ⟨minute, rfl, rfl⟩ := (Reader.digits_eq_ok_iff (by decide)).1 minutes
  obtain rfl := Reader.mark_eq_ok_iff.1 colon'
  obtain ⟨second, rfl, rfl⟩ := (Reader.digits_eq_ok_iff (by decide)).1 seconds
  obtain ⟨fraction, rfl, rfl⟩ := of_readMillis read
  refine ⟨⟨hour, minute, second, fraction⟩, ?_, rfl, rfl, rfl, rfl⟩
  simp only [chars, List.append_assoc, List.cons_append]

theorem append_inj {v w : WrittenTime} {rest rest' : List Char} (ends : DateTime.Ends rest)
    (ends' : DateTime.Ends rest') (h : v.chars ++ rest = w.chars ++ rest') :
    v = w ∧ rest = rest' := by
  have read := readTime_chars v ends
  rw [h, readTime_chars w ends'] at read
  simp only [Except.ok.injEq, Prod.mk.injEq] at read
  obtain ⟨_, rfl⟩ := read
  obtain ⟨hour, minute, second, fraction⟩ := v
  obtain ⟨hour', minute', second', fraction'⟩ := w
  have all := List.append_cancel_right h
  simp only [chars] at all
  obtain ⟨hours, behind⟩ := List.append_inj all (hour.length_eq.trans hour'.length_eq.symm)
  obtain ⟨minutes, behind'⟩ := List.append_inj (List.tail_eq_of_cons_eq behind)
    (minute.length_eq.trans minute'.length_eq.symm)
  obtain ⟨seconds, fractions⟩ := List.append_inj (List.tail_eq_of_cons_eq behind')
    (second.length_eq.trans second'.length_eq.symm)
  obtain rfl := Digits.Field.ext hours
  obtain rfl := Digits.Field.ext minutes
  obtain rfl := Digits.Field.ext seconds
  obtain rfl : fraction = fraction' := by
    cases fraction <;> cases fraction'
    · rfl
    · simp only [fractionChars, reduceCtorEq] at fractions
    · simp only [fractionChars, reduceCtorEq] at fractions
    · exact congrArg some (Digits.Field.ext (List.tail_eq_of_cons_eq fractions))
  exact ⟨rfl, rfl⟩

end WrittenTime

end PolicyValues
