import PolicyValues.Proofs.Temporal.Grammar
import PolicyValues.Proofs.Text.Viable

/-!
The lexical grammars of zones, instants, dates and times of day: digits and marks in their places,
whatever they amount to. The readers follow these grammars, so a malformed text is blamed at a place
up to which it can be completed.
-/
namespace PolicyValues
open Text Reader

namespace Zone

def minuteTexts : Language Char :=
  {cs | ∃ minutes : Digits.Field 2, minutes.chars = cs ∧ minutes.value ≤ 59}

def sizeTexts : Language Char := Digits.fields 2 * {[':']} * minuteTexts

def grammar : Language Char := {['Z']} + ({['+']} + {['-']}) * sizeTexts

end Zone

namespace DateTime

def dateTexts : Language Char :=
  Digits.signedRuns 4 * {['-']} * Digits.fields 2 * {['-']} * Digits.fields 2

def fractionTexts : Language Char := 1 + {['.']} * Digits.fields 3

def timeTexts : Language Char :=
  Digits.fields 2 * {[':']} * Digits.fields 2 * {[':']} * Digits.fields 2 * fractionTexts

def grammar : Language Char := dateTexts * {['T']} * timeTexts * (1 + Zone.grammar)

end DateTime

def Date.grammar : Language Char := DateTime.dateTexts * (1 + Zone.grammar)

def Time.grammar : Language Char := DateTime.timeTexts * (1 + Zone.grammar)

/-! ## Zones -/

namespace Zone

theorem begins_minuteTexts : Begins minuteTexts [] := begins_nil_of_mem ⟨.zeros 2, rfl, by decide⟩

theorem readMinutes_follows (sign : ℤ) (hours : ℕ) (cs : List Char) :
    Follows minuteTexts cs (do
      let (minutes, rest) ← Reader.digits 2 "time zone minutes" cs
      if 59 < minutes then .error (.malformed cs (.zoneMinutes minutes))
      else .ok (sign * (hours * 60 + minutes : Nat), rest)) := by
  cases read : Reader.digits 2 "time zone minutes" cs with
  | error stop =>
    obtain rfl := Reader.eq_of_digits_eq_error read
    exact .malformed begins_minuteTexts _
  | ok taken =>
    obtain ⟨n, rest⟩ := taken
    obtain ⟨minutes, rfl, rfl⟩ := (Reader.digits_eq_ok_iff (by decide)).1 read
    simp only [bind, Except.bind]
    split
    · exact .malformed begins_minuteTexts _
    · have mem : minutes.chars ∈ minuteTexts := ⟨minutes, rfl, Nat.not_lt.1 ‹_›⟩
      exact .ok mem _

theorem readSize_follows (sign : ℤ) (cs : List Char) :
    Follows sizeTexts cs (readSize sign cs) := by
  have minutes := begins_minuteTexts
  rw [sizeTexts, mul_assoc]
  refine (Reader.digits_follows (by decide) _ cs).bind ((begins_singleton ':').mul minutes) ?_
  intro hours rest
  refine (Reader.mark_follows ':' _ rest).bind minutes ?_
  intro _ rest
  exact readMinutes_follows sign hours rest

theorem mem_grammar_of_signed {sign : Char} (h : sign = '+' ∨ sign = '-') :
    ∀ cs ∈ {[sign]} * sizeTexts, cs ∈ grammar := by
  have mem : [sign] ∈ ({['+']} + {['-']} : Language Char) := by
    rcases h with rfl | rfl
    · exact .inl rfl
    · exact .inr rfl
  intro cs signed
  obtain ⟨_, rfl, size, sized, rfl⟩ := Language.mem_mul.1 signed
  exact .inr (Language.mem_mul.2 ⟨_, mem, size, sized, rfl⟩)

theorem readRaw_follows (cs : List Char) : Follows grammar cs (readRaw cs) := by
  have utc : ['Z'] ∈ grammar := .inl rfl
  have nothing : Begins grammar [] := begins_nil_of_mem utc
  cases cs with
  | nil => exact .malformed nothing _
  | cons c more =>
    by_cases zulu : c = 'Z'
    · subst zulu
      exact Follows.ok utc 0
    · by_cases plus : c = '+'
      · subst plus
        exact ((readSize_follows 1 more).cons '+').mono (mem_grammar_of_signed (.inl rfl))
      · by_cases minus : c = '-'
        · subst minus
          exact ((readSize_follows (-1) more).cons '-').mono (mem_grammar_of_signed (.inr rfl))
        · have start : readRaw (c :: more) = .error (.malformed (c :: more) .zoneStart) := by
            simp only [readRaw, bind, Except.bind, List.cons.injEq, zulu, plus, minus, false_and,
              imp_self, implies_true]
          rw [start]
          exact .malformed nothing _

theorem nil_mem_optional : [] ∈ 1 + grammar := .inl rfl

theorem begins_optional : Begins (1 + grammar) [] := begins_nil_of_mem nil_mem_optional

theorem readOptional_follows (cs : List Char) : Follows (1 + grammar) cs (readOptional cs) := by
  unfold readOptional
  split
  · exact Follows.ok nil_mem_optional _
  · refine ((readRaw_follows cs).mono fun _ mem => .inr mem).finish fun raw rest => ?_
    simp only
    split
    · exact .pure _ _
    · exact .outOfRange _ _

end Zone

/-! ## Dates, times of day and instants -/

namespace DateTime

theorem readDate_follows (cs : List Char) : Follows dateTexts cs (readDate cs) := by
  have dash := begins_singleton '-'
  have field := Digits.begins_fields 2
  simp only [dateTexts, mul_assoc]
  refine (signed_follows (by decide) _ cs).bind (dash.mul (field.mul (dash.mul field))) ?_
  intro year rest
  refine (mark_follows '-' _ rest).bind (field.mul (dash.mul field)) fun _ rest => ?_
  refine (digits_follows (show 2 ≤ 9 by decide) _ rest).bind (dash.mul field) fun month rest => ?_
  refine (mark_follows '-' _ rest).bind field fun _ rest => ?_
  exact (digits_follows (by decide) _ rest).finish fun day rest => .pure _ rest

theorem begins_fractionTexts : Begins fractionTexts [] := begins_nil_of_mem (.inl rfl)

theorem readMillis_follows (cs : List Char) : Follows fractionTexts cs (readMillis cs) := by
  have pointed : ∀ cs ∈ {['.']} * Digits.fields 3, cs ∈ fractionTexts := fun _ mem => .inr mem
  unfold readMillis
  split
  · rename_i cs
    refine Follows.mono (Follows.cons ?_ '.') pointed
    refine (digits_follows (show 3 ≤ 9 by decide) _ cs).finish fun millis rest => ?_
    simp only
    split
    · exact .malformed (begins_nil_of_mem Language.nil_mem_one) _
    · exact .pure _ _
  · have nothing : [] ∈ fractionTexts := .inl rfl
    exact Follows.ok nothing 0

theorem readTime_follows (cs : List Char) : Follows timeTexts cs (readTime cs) := by
  have colon := begins_singleton ':'
  have field := Digits.begins_fields 2
  have fraction := begins_fractionTexts
  have seconds := colon.mul (field.mul fraction)
  have minutes := colon.mul (field.mul seconds)
  simp only [timeTexts, mul_assoc]
  refine (digits_follows (show 2 ≤ 9 by decide) _ cs).bind minutes fun hour rest => ?_
  refine (mark_follows ':' _ rest).bind (field.mul seconds) fun _ rest => ?_
  refine (digits_follows (show 2 ≤ 9 by decide) _ rest).bind seconds fun minute rest => ?_
  refine (mark_follows ':' _ rest).bind (field.mul fraction) fun _ rest => ?_
  refine (digits_follows (show 2 ≤ 9 by decide) _ rest).bind fraction fun second rest => ?_
  exact (readMillis_follows rest).finish fun millis rest => .pure _ rest

theorem begins_timeTexts : Begins timeTexts [] := by
  have colon := begins_singleton ':'
  have field := Digits.begins_fields 2
  exact ((((field.mul colon).mul field).mul colon).mul field).mul begins_fractionTexts

theorem readFields_follows (cs : List Char) : Follows grammar cs (readFields cs) := by
  have zone := Zone.begins_optional
  have time := begins_timeTexts.mul zone
  simp only [grammar, mul_assoc]
  refine (readDate_follows cs).bind ((begins_singleton 'T').mul time) fun date rest => ?_
  refine (mark_follows 'T' _ rest).bind time fun _ rest => ?_
  refine (readTime_follows rest).bind zone fun time rest => ?_
  exact (Zone.readOptional_follows rest).finish fun zone rest => .pure _ rest

end DateTime

theorem Date.readFields_follows (cs : List Char) : Follows grammar cs (readFields cs) := by
  refine (DateTime.readDate_follows cs).bind Zone.begins_optional fun date rest => ?_
  exact (Zone.readOptional_follows rest).finish fun zone rest => .pure _ rest

theorem Time.readFields_follows (cs : List Char) : Follows grammar cs (readFields cs) := by
  refine (DateTime.readTime_follows cs).bind Zone.begins_optional fun time rest => ?_
  exact (Zone.readOptional_follows rest).finish fun zone rest => .pure _ rest

/-! ## Texts of the grammars are written forms -/

theorem Zone.mem_sizeTexts_iff {cs : List Char} :
    cs ∈ sizeTexts ↔ ∃ hours minutes : Digits.Field 2,
      hours.chars ++ ':' :: minutes.chars = cs ∧ minutes.value ≤ 59 := by
  simp only [sizeTexts, mul_assoc, Language.mem_mul]
  constructor
  · rintro ⟨_, ⟨hours, rfl⟩, _, ⟨_, rfl, _, ⟨minutes, rfl, few⟩, rfl⟩, rfl⟩
    exact ⟨hours, minutes, rfl, few⟩
  · rintro ⟨hours, minutes, rfl, few⟩
    exact ⟨_, ⟨hours, rfl⟩, _, ⟨_, rfl, _, ⟨minutes, rfl, few⟩, rfl⟩, rfl⟩

theorem Zone.mem_grammar_iff {cs : List Char} :
    cs ∈ grammar ↔ ∃ w : WrittenZone, w.chars = cs ∧ w.Lexical := by
  constructor
  · rintro (rfl | signed)
    · exact ⟨.utc, rfl, trivial⟩
    · obtain ⟨_, sign, _, sized, rfl⟩ := Language.mem_mul.1 signed
      obtain ⟨hours, minutes, rfl, few⟩ := mem_sizeTexts_iff.1 sized
      rcases sign with rfl | rfl
      · exact ⟨.offset false hours minutes, rfl, few⟩
      · exact ⟨.offset true hours minutes, rfl, few⟩
  · rintro ⟨_ | ⟨minus, hours, minutes⟩, rfl, few⟩
    · exact .inl rfl
    · have sized := mem_sizeTexts_iff.2 ⟨hours, minutes, rfl, few⟩
      cases minus with
      | false => exact .inr (Language.mem_mul.2 ⟨['+'], .inl rfl, _, sized, rfl⟩)
      | true => exact .inr (Language.mem_mul.2 ⟨['-'], .inr rfl, _, sized, rfl⟩)

theorem Zone.mem_optional_iff {cs : List Char} :
    cs ∈ 1 + grammar ↔ ∃ z : Option WrittenZone, WrittenZone.optionChars z = cs ∧
      ∀ w ∈ z, w.Lexical := by
  constructor
  · rintro (rfl | mem)
    · exact ⟨none, rfl, fun w behind => absurd behind (Option.not_mem_none w)⟩
    · obtain ⟨w, rfl, lexical⟩ := mem_grammar_iff.1 mem
      refine ⟨some w, rfl, fun v same => ?_⟩
      rwa [← Option.some.inj same]
  · rintro ⟨_ | w, rfl, lexical⟩
    · exact nil_mem_optional
    · exact .inr (mem_grammar_iff.2 ⟨w, rfl, lexical w rfl⟩)

theorem DateTime.mem_dateTexts_iff {cs : List Char} :
    cs ∈ dateTexts ↔ ∃ w : WrittenDate, w.chars = cs := by
  simp only [dateTexts, mul_assoc, Language.mem_mul]
  constructor
  · rintro ⟨_, ⟨minus, year, rfl, digits, enough⟩, _, ⟨_, rfl, _, ⟨_, ⟨month, rfl⟩, _,
      ⟨_, rfl, _, ⟨day, rfl⟩, rfl⟩, rfl⟩, rfl⟩, rfl⟩
    exact ⟨⟨minus, year, month, day, digits, enough⟩, rfl⟩
  · rintro ⟨⟨minus, year, month, day, digits, enough⟩, rfl⟩
    exact ⟨_, ⟨minus, year, rfl, digits, enough⟩, _, ⟨_, rfl, _, ⟨_, ⟨month, rfl⟩, _,
      ⟨_, rfl, _, ⟨day, rfl⟩, rfl⟩, rfl⟩, rfl⟩, rfl⟩

theorem DateTime.mem_fractionTexts_iff {cs : List Char} :
    cs ∈ fractionTexts ↔ ∃ fraction, WrittenTime.fractionChars fraction = cs := by
  constructor
  · rintro (rfl | pointed)
    · exact ⟨none, rfl⟩
    · obtain ⟨_, rfl, _, ⟨digits, rfl⟩, rfl⟩ := Language.mem_mul.1 pointed
      exact ⟨some digits, rfl⟩
  · rintro ⟨_ | digits, rfl⟩
    · exact .inl rfl
    · exact .inr (Language.mem_mul.2 ⟨['.'], rfl, _, ⟨digits, rfl⟩, rfl⟩)

theorem DateTime.mem_timeTexts_iff {cs : List Char} :
    cs ∈ timeTexts ↔ ∃ w : WrittenTime, w.chars = cs := by
  simp only [timeTexts, mul_assoc, Language.mem_mul, mem_fractionTexts_iff]
  constructor
  · rintro ⟨_, ⟨hour, rfl⟩, _, ⟨_, rfl, _, ⟨_, ⟨minute, rfl⟩, _, ⟨_, rfl, _, ⟨_, ⟨second, rfl⟩, _,
      ⟨fraction, rfl⟩, rfl⟩, rfl⟩, rfl⟩, rfl⟩, rfl⟩
    exact ⟨⟨hour, minute, second, fraction⟩, rfl⟩
  · rintro ⟨⟨hour, minute, second, fraction⟩, rfl⟩
    exact ⟨_, ⟨hour, rfl⟩, _, ⟨_, rfl, _, ⟨_, ⟨minute, rfl⟩, _, ⟨_, rfl, _, ⟨_, ⟨second, rfl⟩, _,
      ⟨fraction, rfl⟩, rfl⟩, rfl⟩, rfl⟩, rfl⟩, rfl⟩

theorem DateTime.mem_grammar_iff {cs : List Char} :
    cs ∈ grammar ↔ ∃ w : WrittenDateTime, w.chars = cs ∧ ∀ zone ∈ w.zone, zone.Lexical := by
  simp only [grammar, mul_assoc, Language.mem_mul, mem_dateTexts_iff, mem_timeTexts_iff,
    Zone.mem_optional_iff]
  constructor
  · rintro ⟨_, ⟨date, rfl⟩, _, ⟨_, rfl, _, ⟨_, ⟨time, rfl⟩, _, ⟨zone, rfl, lexical⟩, rfl⟩, rfl⟩,
      rfl⟩
    exact ⟨⟨date, time, zone⟩, rfl, lexical⟩
  · rintro ⟨⟨date, time, zone⟩, rfl, lexical⟩
    exact ⟨_, ⟨date, rfl⟩, _, ⟨_, rfl, _, ⟨_, ⟨time, rfl⟩, _, ⟨zone, rfl, lexical⟩, rfl⟩, rfl⟩, rfl⟩

theorem Date.mem_grammar_iff {cs : List Char} :
    cs ∈ grammar ↔ ∃ (w : WrittenDate) (z : Option WrittenZone),
      w.chars ++ WrittenZone.optionChars z = cs ∧ ∀ zone ∈ z, zone.Lexical := by
  simp only [grammar, Language.mem_mul, DateTime.mem_dateTexts_iff, Zone.mem_optional_iff]
  constructor
  · rintro ⟨_, ⟨w, rfl⟩, _, ⟨z, rfl, lexical⟩, rfl⟩
    exact ⟨w, z, rfl, lexical⟩
  · rintro ⟨w, z, rfl, lexical⟩
    exact ⟨_, ⟨w, rfl⟩, _, ⟨z, rfl, lexical⟩, rfl⟩

theorem Time.mem_grammar_iff {cs : List Char} :
    cs ∈ grammar ↔ ∃ (w : WrittenTime) (z : Option WrittenZone),
      w.chars ++ WrittenZone.optionChars z = cs ∧ ∀ zone ∈ z, zone.Lexical := by
  simp only [grammar, Language.mem_mul, DateTime.mem_timeTexts_iff, Zone.mem_optional_iff]
  constructor
  · rintro ⟨_, ⟨w, rfl⟩, _, ⟨z, rfl, lexical⟩, rfl⟩
    exact ⟨w, z, rfl, lexical⟩
  · rintro ⟨w, z, rfl, lexical⟩
    exact ⟨_, ⟨w, rfl⟩, _, ⟨z, rfl, lexical⟩, rfl⟩

/-! ## Fields that are checked -/

theorem ClockFields.check_acceptedOrOutOfRange (f : ClockFields) (subject : Subject) :
    AcceptedOrOutOfRange (f.check subject) := by
  unfold check
  simp only
  split
  · exact .inr ⟨_, _, rfl⟩
  split
  · exact .inr ⟨_, _, rfl⟩
  split
  · exact .inr ⟨_, _, rfl⟩
  split
  · exact .inr ⟨_, _, rfl⟩
  split
  · exact .inr ⟨_, _, rfl⟩
  split
  · exact .inr ⟨_, _, rfl⟩
  split
  · exact .inr ⟨_, _, rfl⟩
  · exact .inl ⟨_, rfl⟩

theorem DateTime.ofWritten_acceptedOrOutOfRange (subject : Subject) (fields : ClockFields)
    (zone : Option Zone) (days : ℤ) :
    AcceptedOrOutOfRange (ofWritten subject fields zone days) := by
  unfold ofWritten
  rcases fields.check_acceptedOrOutOfRange subject with ⟨wall, checked⟩ | ⟨_, _, refused⟩
  · simp only [checked, bind, Except.bind]
    split
    · exact .inl ⟨_, rfl⟩
    · exact .inr ⟨_, _, rfl⟩
  · rw [refused]
    exact .inr ⟨_, _, rfl⟩

theorem Zone.ofMinutes_acceptedOrOutOfRange (raw : ℤ) : AcceptedOrOutOfRange (ofMinutes raw) := by
  unfold ofMinutes
  split
  · exact .inl ⟨_, rfl⟩
  · exact .inr ⟨_, _, rfl⟩

theorem Time.ofFields_acceptedOrOutOfRange (hour minute second millisecond : ℕ)
    (zone : Option Zone) :
    AcceptedOrOutOfRange (ofFields hour minute second millisecond zone) :=
  (ClockFields.check_acceptedOrOutOfRange _ _).map _

/-- Where a text of a zone, an instant, a date or a time of day is malformed, the fault carries the
text, lies between two characters of it, and what stands before it begins a text of the grammar. -/
theorem malformed_at_completable_front (text input : String) (blamed : Subject) (offset : ℕ)
    (reason : Malformation) :
    (Zone.parse text = .error (.malformed blamed input offset reason) →
      MarksViablePrefix Zone.grammar text input offset) ∧
    (DateTime.parse text = .error (.malformed blamed input offset reason) →
      MarksViablePrefix DateTime.grammar text input offset) ∧
    (Date.parse text = .error (.malformed blamed input offset reason) →
      MarksViablePrefix Date.grammar text input offset) ∧
    (Time.parse text = .error (.malformed blamed input offset reason) →
      MarksViablePrefix Time.grammar text input offset) := by
  refine ⟨fun fault => ?_, fun fault => ?_, fun fault => ?_, fun fault => ?_⟩
  · unfold Zone.parse at fault
    split at fault
    · exact (Zone.readRaw_follows _).marksViablePrefix ‹_› (Except.error.inj fault)
    · exact absurd fault (Zone.ofMinutes_acceptedOrOutOfRange _).not_malformed
  · unfold DateTime.parse at fault
    split at fault
    · exact (DateTime.readFields_follows _).marksViablePrefix ‹_› (Except.error.inj fault)
    · exact absurd fault (DateTime.ofWritten_acceptedOrOutOfRange _ _ _ _).not_malformed
  · unfold Date.parse at fault
    split at fault
    · exact (Date.readFields_follows _).marksViablePrefix ‹_› (Except.error.inj fault)
    · exact absurd fault ((DateTime.ofWritten_acceptedOrOutOfRange _ _ _ _).map _).not_malformed
  · unfold Time.parse at fault
    split at fault
    · exact (Time.readFields_follows _).marksViablePrefix ‹_› (Except.error.inj fault)
    · exact absurd fault (Time.ofFields_acceptedOrOutOfRange _ _ _ _ _).not_malformed

theorem faults_at_completable_fronts :
    (Zone.parse "+05:60" = .error (.malformed .timeZone "+05:60" 4 (.zoneMinutes 60)) ∧
      MarksViablePrefix Zone.grammar "+05:60" "+05:60" 4) ∧
    (DateTime.parse "2014-02-28T13:45:07.0019Z" =
        .error (.malformed .dateTime "2014-02-28T13:45:07.0019Z" 23 .fractionLength) ∧
      MarksViablePrefix DateTime.grammar "2014-02-28T13:45:07.0019Z" "2014-02-28T13:45:07.0019Z"
        23) ∧
    (Date.parse "-0044-03-15-08:75" =
        .error (.malformed .timeZone "-0044-03-15-08:75" 15 (.zoneMinutes 75)) ∧
      MarksViablePrefix Date.grammar "-0044-03-15-08:75" "-0044-03-15-08:75" 15) ∧
    (Time.parse "12:30é" =
        .error (.malformed .time "12:30é" 5 (.mark ':' "between minute and second")) ∧
      MarksViablePrefix Time.grammar "12:30é" "12:30é" 5) := by
  have zone : Zone.parse "+05:60" = .error (.malformed .timeZone "+05:60" 4 (.zoneMinutes 60)) := by
    decide +kernel
  have fraction : DateTime.parse "2014-02-28T13:45:07.0019Z" =
      .error (.malformed .dateTime "2014-02-28T13:45:07.0019Z" 23 .fractionLength) := by
    decide +kernel
  have minutes : Date.parse "-0044-03-15-08:75" =
      .error (.malformed .timeZone "-0044-03-15-08:75" 15 (.zoneMinutes 75)) := by
    decide +kernel
  have mark : Time.parse "12:30é" =
      .error (.malformed .time "12:30é" 5 (.mark ':' "between minute and second")) := by
    decide +kernel
  exact ⟨⟨zone, (malformed_at_completable_front _ _ _ _ _).1 zone⟩,
    ⟨fraction, (malformed_at_completable_front _ _ _ _ _).2.1 fraction⟩,
    ⟨minutes, (malformed_at_completable_front _ _ _ _ _).2.2.1 minutes⟩,
    ⟨mark, (malformed_at_completable_front _ _ _ _ _).2.2.2 mark⟩⟩

end PolicyValues
