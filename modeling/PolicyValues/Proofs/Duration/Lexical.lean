import PolicyValues.Proofs.Duration.Grammar
import PolicyValues.Proofs.Text.Viable

/-!
Durations of the lexical grammar: numbers of any length, of which that of the seconds may have a
fraction. Such a text is read, or refused for the size of a number, never for its form.
-/
namespace PolicyValues.Duration
open Text

def LexicalNumbers (number : Component → Option Digits.Written) : Prop :=
  ∀ component, ∀ n ∈ number component,
    n.Lexical ∧ (component ≠ .seconds → n.fraction = [])

namespace WrittenDuration

structure Lexical (w : WrittenDuration) : Prop where
  numbers : LexicalNumbers w.number
  some_number : ∃ component, w.number component ≠ none

end WrittenDuration

theorem Component.set_ok_or_outOfRange {component : Component} {n : Digits.Written}
    (whole : component ≠ .seconds → n.fraction = []) (before : List Char) (size : Magnitudes) :
    (∃ sized, component.set n before size = .ok sized) ∨
      ∃ subject reason, component.set n before size = .error (.outOfRange subject reason) := by
  unfold set
  split
  · split
    · exact .inl ⟨_, rfl⟩
    · exact .inr ⟨_, _, rfl⟩
  · rename_i other
    rw [if_neg (not_not.2 (whole other))]
    split
    · exact .inr ⟨_, _, rfl⟩
    · exact .inl ⟨_, rfl⟩

section
variable {number : Component → Option Digits.Written}

/-- Numbers in a row are refused for the size of one of them, unless all of them can be taken. -/
theorem readComponents_outOfRange_or_takes (lexical : LexicalNumbers number) (p : Progress)
    {components : List Component} (ascending : components.Pairwise fun a b => a.rank < b.rank)
    (timing : ∀ c ∈ components, p.inTime = c.timed)
    (admitted : ∀ c ∈ components, p.admits c = true) (rest : List Char) :
    (∃ subject reason, readComponents p (components.flatMap (partChars number) ++ rest) =
      .error (.outOfRange subject reason)) ∨ ∀ c ∈ components, ∀ n ∈ number c, c.Takes n := by
  induction components generalizing p with
  | nil => exact .inr fun c mem => absurd mem List.not_mem_nil
  | cons component components ih =>
    rw [List.pairwise_cons] at ascending
    rw [List.forall_mem_cons] at timing admitted
    rw [List.flatMap_cons, List.append_assoc, List.forall_mem_cons]
    cases found : number component with
    | none =>
      rw [partChars_of_none found, List.nil_append]
      exact (ih p ascending.2 timing.2 admitted.2).imp_right fun taken => ⟨nofun, taken⟩
    | some n =>
      obtain ⟨digits, whole⟩ := lexical component n found
      have designates : Component.ofDesignator? p.inTime component.designator = some component :=
        Component.ofDesignator?_eq_some_iff.2 ⟨timing.1, rfl⟩
      generalize components.flatMap (partChars number) ++ rest = more at ih ⊢
      have step := readComponents_step (unsigned?_part digits found more) designates admitted.1
      rcases Component.set_ok_or_outOfRange whole (partChars number component ++ more) p.size with
        ⟨size, set⟩ | ⟨subject, reason, refused⟩
      · have later : ∀ c ∈ components, (p.push component size).admits c = true :=
          fun c mem => decide_eq_true (ascending.1 c mem)
        rw [set] at step
        rcases ih (p.push component size) ascending.2 timing.2 later with
          ⟨subject, reason, refused⟩ | taken
        · exact .inl ⟨subject, reason, step.trans refused⟩
        · refine .inr ⟨fun m mem => ?_, taken⟩
          rw [← Option.some.inj mem]
          exact (Component.exists_set_iff digits).1 ⟨size, set⟩
      · rw [refused] at step
        exact .inl ⟨subject, reason, step⟩

theorem readComponents_outOfRange_or_admissible (lexical : LexicalNumbers number) {marked : Bool}
    (timeless : marked = false → ∀ c ∈ Component.times, number c = none) :
    (∃ subject reason, readComponents {} (bodyChars number marked) =
      .error (.outOfRange subject reason)) ∨ Admissible number := by
  -- Dates are read before the mark of time, so they are complained about first.
  rcases readComponents_outOfRange_or_takes lexical {} (show Component.dates.Pairwise
    fun a b => a.rank < b.rank by decide) (by decide) (by decide)
    (if marked then 'T' :: Component.times.flatMap (partChars number) else []) with refused | dated
  · exact .inl refused
  have admissible (timed : ∀ c ∈ Component.times, ∀ n ∈ number c, c.Takes n) :
      Admissible number := by
    intro c n mem
    exact ⟨(lexical c n mem).1, Component.forall_dates_times_iff.1 ⟨dated, timed⟩ c n mem⟩
  cases marked with
  | false =>
    refine .inr (admissible fun c behind n mem => ?_)
    rw [timeless rfl c behind] at mem
    exact absurd mem (Option.not_mem_none n)
  | true =>
    obtain ⟨p, read, reached⟩ := readComponents_flatMap
      (fun c before n mem => ⟨(lexical c n mem).1, dated c before n mem⟩) {}
      (show Component.dates.Pairwise fun a b => a.rank < b.rank by decide) (by decide) (by decide)
      ('T' :: Component.times.flatMap (partChars number))
    have timing : ∀ c ∈ Component.times, true = c.timed := by decide
    have later : ∀ c ∈ Component.times, ∀ before ∈ Component.dates, before.rank < c.rank := by
      decide
    rcases readComponents_outOfRange_or_takes lexical p.marked (by decide)
      (fun c mem => timing c mem) (fun c mem => reached.admits c rfl (later c mem)) [] with
      ⟨subject, reason, refused⟩ | timed
    · refine .inl ⟨subject, reason, ?_⟩
      rw [List.append_nil] at refused
      rw [bodyChars, if_pos rfl, read, readComponents_mark reached.inTime, refused]
    · exact .inr (admissible timed)

end

theorem read_of_refused {negative : Bool} {body : List Char} {stop : Stop}
    (components : readComponents {} body = .error stop) :
    read (Digits.signChars negative ++ 'P' :: body) = .error stop := by
  cases negative with
  | false =>
    simp only [read, Digits.signChars, Bool.false_eq_true, if_false, List.nil_append,
      List.cons.injEq, Char.reduceEq, false_and, imp_self, implies_true, Reader.mark_cons,
      components, bind, Except.bind]
  | true =>
    simp only [read, Digits.signChars, if_true, List.singleton_append, Reader.mark_cons,
      components, bind, Except.bind]

def grammar : Language Char := {cs | ∃ w : WrittenDuration, w.chars = cs ∧ w.Lexical}

theorem parse_of_mem_grammar {text : String} (h : text.toList ∈ grammar) :
    AcceptedOrOutOfRange (parse text) := by
  obtain ⟨w, same, lexical⟩ := h
  rw [parse, ← same]
  rcases readComponents_outOfRange_or_admissible lexical.numbers
    WrittenDuration.hasTime_eq_false_iff.1 with ⟨subject, reason, refused⟩ | admissible
  · rw [WrittenDuration.chars, read_of_refused refused]
    exact .inr ⟨subject, reason, rfl⟩
  · have inGrammar : w.InGrammar := ⟨admissible, lexical.some_number⟩
    obtain ⟨d, read, _⟩ := inGrammar.read
    rw [read]
    exact .inl ⟨d, rfl⟩

end PolicyValues.Duration
