import PolicyValues.Proofs.Duration.Lexical
import PolicyValues.Proofs.Temporal.Lexical

/-!
What becomes of the texts of the lexical grammars. They are read, or refused for the size of a
field, with one exception: digits of a year that take more than 63 bits are not read as a year at
all, and the text that begins with them is said to be malformed.
-/
namespace PolicyValues
open Text

/-! ## Reading written forms of any size -/

def Reader.FinishesOrOutOfRange {α : Type} (answer : Except Stop (α × List Char)) : Prop :=
  (∃ a, answer = .ok (a, [])) ∨ ∃ subject reason, answer = .error (.outOfRange subject reason)

theorem Reader.FinishesOrOutOfRange.bind {α β : Type} {answer : Except Stop (α × List Char)}
    (h : FinishesOrOutOfRange answer) (make : α → β) :
    FinishesOrOutOfRange (answer >>= fun (a, rest) => .ok (make a, rest)) := by
  rcases h with ⟨a, rfl⟩ | ⟨subject, reason, rfl⟩
  · exact .inl ⟨make a, rfl⟩
  · exact .inr ⟨subject, reason, rfl⟩

theorem WrittenZone.readOptional_finishesOrOutOfRange {z : Option WrittenZone}
    (lexical : ∀ w ∈ z, w.Lexical) :
    Reader.FinishesOrOutOfRange (Zone.readOptional (optionChars z)) := by
  cases z with
  | none => exact .inl ⟨_, rfl⟩
  | some w =>
    have raw := readRaw_chars (lexical w rfl) []
    rw [List.append_nil] at raw
    unfold Zone.readOptional optionChars
    split
    · exact .inl ⟨_, rfl⟩
    · simp only [Option.elim_some, raw, bind, Except.bind]
      split
      · exact .inl ⟨_, rfl⟩
      · exact .inr ⟨_, _, rfl⟩

def yearSize (cs : List Char) : ℕ := Digits.value (Digits.span (cs.dropWhile (· == '-'))).1

theorem yearSize_signed {minus : Bool} {ds rest : List Char} (some_digit : ds ≠ [])
    (digits : ∀ c ∈ ds, c.isDigit = true) (stops : Stops Char.isDigit rest) :
    yearSize (Digits.signChars minus ++ ds ++ rest) = Digits.value ds := by
  have sign : ∀ c ∈ Digits.signChars minus, (c == '-') = true := by
    cases minus with
    | false => exact List.forall_mem_nil _
    | true => exact List.forall_mem_singleton.2 rfl
  have unsigned : Stops (· == '-') (ds ++ rest) := by
    obtain ⟨d, ds, rfl⟩ := List.exists_cons_of_ne_nil some_digit
    rw [List.cons_append, stops_cons, beq_eq_false_iff_ne]
    rintro rfl
    exact absurd (digits '-' List.mem_cons_self) (by decide)
  rw [yearSize, List.append_assoc, dropWhile_append_of_stops sign unsigned,
    Digits.span_append_of_stops digits stops]

namespace WrittenDate

theorem yearSize_chars (w : WrittenDate) (rest : List Char) :
    yearSize (w.chars ++ rest) = Digits.value w.year := by
  have some_digit : w.year ≠ [] :=
    List.ne_nil_of_length_pos (Nat.lt_of_lt_of_le (by decide) w.year_length)
  rw [chars, List.append_assoc, List.cons_append,
    yearSize_signed some_digit w.year_digits (stops_cons.2 rfl)]

theorem readDate_of_long {w : WrittenDate} (long : 2 ^ 63 ≤ Digits.value w.year)
    (rest : List Char) :
    DateTime.readDate (w.chars ++ rest) =
      .error (.malformed (w.chars ++ rest) (.item "year")) := by
  have year : Digits.signed? (w.chars ++ rest) = none := by
    cases taken : Digits.signed? (w.chars ++ rest) with
    | none => rfl
    | some run =>
      obtain ⟨minus, ds, same, some_digit, digits, stops, small, _⟩ :=
        Digits.signed?_eq_some_iff.1 taken
      have size := w.yearSize_chars rest
      rw [same, yearSize_signed some_digit digits stops] at size
      exact absurd (size ▸ small) (Nat.not_lt.2 long)
  simp only [DateTime.readDate, Reader.signed, year, bind, Except.bind]

end WrittenDate

/-! ## Whole texts -/

section
variable {α β : Type} {read : Reader α} {answer : Except ValueError β}

theorem Reader.FinishesOrOutOfRange.parsed {cs : List Char} (h : FinishesOrOutOfRange (read cs))
    (subject : Subject)
    (stopped : ∀ stop, Reader.whole read cs = .error stop →
      answer = .error (stop.within subject cs))
    (made : ∀ a, Reader.whole read cs = .ok a → AcceptedOrOutOfRange answer) :
    AcceptedOrOutOfRange answer := by
  rcases h with ⟨a, taken⟩ | ⟨blamed, reason, refused⟩
  · exact made a (whole_eq_ok_iff.2 taken)
  · have stop : Reader.whole read cs = .error (.outOfRange blamed reason) := by
      rw [Reader.whole, refused]
    exact .inr ⟨blamed, reason, stopped _ stop⟩

def Reader.NeedsYear (cs : List Char) (answer : Except Stop (α × List Char)) : Prop :=
  if yearSize cs < 2 ^ 63 then FinishesOrOutOfRange answer
  else answer = .error (.malformed cs (.item "year"))

theorem Reader.NeedsYear.parsed {text : String} (h : NeedsYear text.toList (read text.toList))
    (subject : Subject)
    (stopped : ∀ stop, Reader.whole read text.toList = .error stop →
      answer = .error (stop.within subject text.toList))
    (made : ∀ a, Reader.whole read text.toList = .ok a → AcceptedOrOutOfRange answer) :
    if yearSize text.toList < 2 ^ 63 then AcceptedOrOutOfRange answer
    else answer = .error (.malformed subject text 0 (.item "year")) := by
  unfold NeedsYear at h
  split at h
  · rw [if_pos ‹_›]
    exact h.parsed subject stopped made
  · have stop : Reader.whole read text.toList =
        .error (.malformed text.toList (.item "year")) := by
      rw [Reader.whole, h]
    rw [if_neg ‹_›, stopped _ stop, Stop.within, offsetOf, Nat.sub_self, String.ofList_toList]
    rfl

end

theorem DateTime.parse_of_mem_grammar {text : String} (h : text.toList ∈ grammar) :
    if yearSize text.toList < 2 ^ 63 then AcceptedOrOutOfRange (parse text)
    else parse text = .error (.malformed .dateTime text 0 (.item "year")) := by
  obtain ⟨w, same, lexical⟩ := mem_grammar_iff.1 h
  have zone := WrittenZone.readOptional_finishesOrOutOfRange lexical
  have fields : Reader.NeedsYear text.toList (readFields text.toList) := by
    have size : yearSize w.chars = Digits.value w.date.year := w.date.yearSize_chars _
    rw [← same, Reader.NeedsYear, size]
    split
    · simp only [readFields, WrittenDateTime.chars, bind, Except.bind, w.date.readDate_chars ‹_›,
        Reader.mark_cons, w.time.readTime_chars (WrittenZone.ends_optionChars w.zone), pure,
        Except.pure]
      exact zone.bind _
    · simp only [readFields, WrittenDateTime.chars, WrittenDate.readDate_of_long (Nat.not_lt.1 ‹_›),
        bind, Except.bind]
  refine fields.parsed .dateTime (fun stop stopped => ?_) fun a taken => ?_
  · unfold parse
    rw [stopped]
  · unfold parse
    rw [taken]
    exact ofWritten_acceptedOrOutOfRange _ _ _ _

theorem Date.parse_of_mem_grammar {text : String} (h : text.toList ∈ grammar) :
    if yearSize text.toList < 2 ^ 63 then AcceptedOrOutOfRange (parse text)
    else parse text = .error (.malformed .date text 0 (.item "year")) := by
  obtain ⟨w, z, same, lexical⟩ := mem_grammar_iff.1 h
  have zone := WrittenZone.readOptional_finishesOrOutOfRange lexical
  have fields : Reader.NeedsYear text.toList (readFields text.toList) := by
    rw [← same, Reader.NeedsYear, w.yearSize_chars]
    split
    · simp only [readFields, bind, Except.bind, w.readDate_chars ‹_›, pure, Except.pure]
      exact zone.bind _
    · simp only [readFields, WrittenDate.readDate_of_long (Nat.not_lt.1 ‹_›), bind, Except.bind]
  refine fields.parsed .date (fun stop stopped => ?_) fun a taken => ?_
  · unfold parse
    rw [stopped]
  · unfold parse
    rw [taken]
    exact (DateTime.ofWritten_acceptedOrOutOfRange _ _ _ _).map _

theorem Time.parse_of_mem_grammar {text : String} (h : text.toList ∈ grammar) :
    AcceptedOrOutOfRange (parse text) := by
  obtain ⟨w, z, same, lexical⟩ := mem_grammar_iff.1 h
  have zone := WrittenZone.readOptional_finishesOrOutOfRange lexical
  have fields : Reader.FinishesOrOutOfRange (readFields text.toList) := by
    rw [← same]
    simp only [readFields, bind, Except.bind, w.readTime_chars (WrittenZone.ends_optionChars z),
      pure, Except.pure]
    exact zone.bind fun zone => ((_, _, _, _), zone.1)
  refine fields.parsed .time (fun stop stopped => ?_) fun a taken => ?_
  · unfold parse
    rw [stopped]
  · unfold parse
    rw [taken]
    exact ofFields_acceptedOrOutOfRange _ _ _ _ _

theorem Zone.parse_of_mem_grammar {text : String} (h : text.toList ∈ grammar) :
    AcceptedOrOutOfRange (parse text) := by
  obtain ⟨w, same, lexical⟩ := mem_grammar_iff.1 h
  have raw := WrittenZone.readRaw_chars lexical []
  rw [List.append_nil, same] at raw
  rw [parse, Reader.whole_eq_ok_iff.2 raw]
  exact ofMinutes_acceptedOrOutOfRange _

/-- Texts of the lexical grammars are accepted or refused for a field outside its domain, but where
a year takes more than 63 bits the text is malformed from its start. -/
theorem lexical_text_malformed_only_at_long_year (text : String) :
    (text.toList ∈ DateTime.grammar →
      if yearSize text.toList < 2 ^ 63 then AcceptedOrOutOfRange (DateTime.parse text)
      else DateTime.parse text = .error (.malformed .dateTime text 0 (.item "year"))) ∧
    (text.toList ∈ Date.grammar →
      if yearSize text.toList < 2 ^ 63 then AcceptedOrOutOfRange (Date.parse text)
      else Date.parse text = .error (.malformed .date text 0 (.item "year"))) ∧
    (text.toList ∈ Time.grammar → AcceptedOrOutOfRange (Time.parse text)) ∧
    (text.toList ∈ Zone.grammar → AcceptedOrOutOfRange (Zone.parse text)) ∧
    (text.toList ∈ Duration.grammar → AcceptedOrOutOfRange (Duration.parse text)) := by
  refine ⟨fun mem => ?_, fun mem => ?_, fun mem => ?_, fun mem => ?_, fun mem => ?_⟩
  · exact DateTime.parse_of_mem_grammar mem
  · exact Date.parse_of_mem_grammar mem
  · exact Time.parse_of_mem_grammar mem
  · exact Zone.parse_of_mem_grammar mem
  · exact Duration.parse_of_mem_grammar mem

theorem long_year_and_other_sizes :
    ("-9223372036854775808-12-31T23:59:59.999Z".toList ∈ DateTime.grammar ∧
      DateTime.parse "-9223372036854775808-12-31T23:59:59.999Z" =
        .error (.malformed .dateTime "-9223372036854775808-12-31T23:59:59.999Z" 0 (.item "year"))) ∧
    ("9223372036854775807-02-30+24:01".toList ∈ Date.grammar ∧
      AcceptedOrOutOfRange (Date.parse "9223372036854775807-02-30+24:01")) ∧
    ("24:60:61".toList ∈ Time.grammar ∧ AcceptedOrOutOfRange (Time.parse "24:60:61")) ∧
    ("-99:59".toList ∈ Zone.grammar ∧ AcceptedOrOutOfRange (Zone.parse "-99:59")) ∧
    ("P18446744073709551616DT0.5S".toList ∈ Duration.grammar ∧
      AcceptedOrOutOfRange (Duration.parse "P18446744073709551616DT0.5S")) := by
  have long : "-9223372036854775808-12-31T23:59:59.999Z".toList ∈ DateTime.grammar :=
    DateTime.mem_grammar_iff.2 ⟨⟨.ofNat true (2 ^ 63) (.ofNat 12 (by decide))
      (.ofNat 31 (by decide)) (by decide +kernel), ⟨.ofNat 23 (by decide), .ofNat 59 (by decide), .ofNat 59 (by decide),
        some (.ofNat 999 (by decide))⟩, some .utc⟩, by decide +kernel, by decide⟩
  have year : "9223372036854775807-02-30+24:01".toList ∈ Date.grammar :=
    Date.mem_grammar_iff.2 ⟨.ofNat false (2 ^ 63 - 1) (.ofNat 2 (by decide)) (.ofNat 30 (by decide))
      (by decide +kernel), some (.offset false (.ofNat 24 (by decide)) (.ofNat 1 (by decide))),
      by decide +kernel, by decide⟩
  have time : "24:60:61".toList ∈ Time.grammar :=
    Time.mem_grammar_iff.2 ⟨⟨.ofNat 24 (by decide), .ofNat 60 (by decide), .ofNat 61 (by decide),
      none⟩, none, by decide +kernel, by decide⟩
  have zone : "-99:59".toList ∈ Zone.grammar :=
    Zone.mem_grammar_iff.2 ⟨.offset true (.ofNat 99 (by decide)) (.ofNat 59 (by decide)),
      by decide +kernel, by decide⟩
  have duration : "P18446744073709551616DT0.5S".toList ∈ Duration.grammar := by
    refine ⟨⟨false, fun
      | .days => some ⟨Digits.ofNat (2 ^ 64), []⟩
      | .seconds => some ⟨['0'], ['5']⟩
      | _ => none⟩, by decide +kernel, ⟨?_, .days, by decide⟩⟩
    intro component n mem
    cases component
    case days =>
      rw [← Option.some.inj mem]
      exact ⟨Digits.Written.lexical_ofNat _, fun _ => rfl⟩
    case seconds =>
      rw [← Option.some.inj mem]
      exact ⟨⟨by decide, List.all_eq_true.1 rfl, List.all_eq_true.1 rfl⟩,
        fun other => absurd rfl other⟩
    all_goals exact absurd mem (Option.not_mem_none n)
  have malformed := (lexical_text_malformed_only_at_long_year _).1 long
  rw [if_neg (by decide +kernel)] at malformed
  have sized := (lexical_text_malformed_only_at_long_year _).2.1 year
  rw [if_pos (by decide +kernel)] at sized
  exact ⟨⟨long, malformed⟩, ⟨year, sized⟩,
    ⟨time, (lexical_text_malformed_only_at_long_year _).2.2.1 time⟩,
    ⟨zone, (lexical_text_malformed_only_at_long_year _).2.2.2.1 zone⟩,
    ⟨duration, (lexical_text_malformed_only_at_long_year _).2.2.2.2 duration⟩⟩

theorem date_of_long_year_malformed :
    "9223372036854775808-01-01".toList ∈ Date.grammar ∧
      ¬ AcceptedOrOutOfRange (Date.parse "9223372036854775808-01-01") := by
  have mem : "9223372036854775808-01-01".toList ∈ Date.grammar :=
    Date.mem_grammar_iff.2 ⟨.ofNat false (2 ^ 63) (.ofNat 1 (by decide)) (.ofNat 1 (by decide))
      (by decide +kernel), none, by decide +kernel, by decide⟩
  have malformed : Date.parse "9223372036854775808-01-01" =
      .error (.malformed .date "9223372036854775808-01-01" 0 (.item "year")) := by
    decide +kernel
  exact ⟨mem, fun accepted => accepted.not_malformed malformed⟩

end PolicyValues
