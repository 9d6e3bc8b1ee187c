import Mathlib.Data.List.DropRight
import PolicyValues.Proofs.Text.Written
import PolicyValues.Proofs.Value.JsonRoundTrip

/-!
Dropping blanks is trimming and no more. Where a registry drops them, a source with a text converts
as the text between its outer blanks does where they are kept; strings, and sources that carry
something other than a text, are left alone.
-/
namespace PolicyValues

namespace Text

variable {p : Char → Bool}

theorem trim_eq_rdropWhile (p : Char → Bool) (cs : List Char) :
    trim p cs = (cs.dropWhile p).rdropWhile p := rfl

theorem exists_around_trim (p : Char → Bool) (cs : List Char) :
    ∃ before after, cs = before ++ trim p cs ++ after ∧ (∀ c ∈ before, p c = true) ∧
      ∀ c ∈ after, p c = true := by
  refine ⟨cs.takeWhile p, (cs.dropWhile p).rtakeWhile p, ?_, fun c => List.mem_takeWhile_imp,
    fun c => List.mem_rtakeWhile_imp⟩
  rw [List.append_assoc, trim_eq_rdropWhile, List.rdropWhile_append_rtakeWhile,
    List.takeWhile_append_dropWhile]

theorem stops_trim (p : Char → Bool) (cs : List Char) : Stops p (trim p cs) := by
  have front : trim p cs <+: cs.dropWhile p := List.rdropWhile_prefix p _
  obtain ⟨after, split⟩ := front
  have stops := stops_dropWhile p cs
  rw [← split] at stops
  cases kept : trim p cs with
  | nil => exact stops_nil p
  | cons c rest =>
    rw [kept, List.cons_append, stops_cons] at stops
    exact stops_cons.2 stops

theorem stops_reverse_trim (p : Char → Bool) (cs : List Char) : Stops p (trim p cs).reverse := by
  rw [trim, List.reverse_reverse]
  exact stops_dropWhile p _

theorem trim_around {before core after : List Char} (first : ∀ c ∈ before, p c = true)
    (last : ∀ c ∈ after, p c = true) (front : Stops p core) (back : Stops p core.reverse) :
    trim p (before ++ core ++ after) = core := by
  have last' : ∀ c ∈ after.reverse, p c = true := fun c mem => last c (List.mem_reverse.1 mem)
  cases core with
  | nil =>
    have all : ∀ c ∈ before ++ after, p c = true := by
      intro c mem
      exact (List.mem_append.1 mem).elim (first c) (last c)
    have nothing := dropWhile_append_of_stops all (stops_nil p)
    rw [List.append_nil] at nothing
    rw [List.append_nil, trim, nothing]
    rfl
  | cons c rest =>
    have stops : Stops p (c :: rest ++ after) := stops_cons.2 (stops_cons.1 front)
    rw [trim, List.append_assoc, dropWhile_append_of_stops first stops, List.reverse_append,
      dropWhile_append_of_stops last' back, List.reverse_reverse]

end Text

def blanks : List Char := [' ', '\t', '\n', '\r']

/-- What a text holds between blanks, itself with none at either end. -/
structure TrimsTo (text core : String) : Prop where
  around : ∃ before after : String, text = before ++ core ++ after ∧
    (∀ c ∈ before.toList, c ∈ blanks) ∧ ∀ c ∈ after.toList, c ∈ blanks
  front : ∀ c ∈ core.toList.head?, c ∉ blanks
  back : ∀ c ∈ core.toList.getLast?, c ∉ blanks

inductive Alike : Except ConversionError Value → Except ConversionError Value → Prop
  | converted (v : Value) : Alike (.ok v) (.ok v)
  | refused (t : DataType) (kind kind' : SourceKind) (text : String) (cause : ValueError) :
    Alike (.error (.unreadable t kind text cause)) (.error (.unreadable t kind' text cause))

def Source.IsTextual (s : Source) : Prop := s.flatten.kind ∈ [.text, .node, .sequence]

instance (s : Source) : Decidable s.IsTextual := inferInstanceAs (Decidable (_ ∈ _))

namespace Registry
open Text

theorem isCollapsible_iff {c : Char} : isCollapsible c = true ↔ c ∈ blanks := by
  simp only [isCollapsible, blanks, Bool.or_eq_true, beq_iff_eq, List.mem_cons, List.not_mem_nil,
    or_false, or_assoc]

theorem stops_iff {cs : List Char} : Stops isCollapsible cs ↔ ∀ c ∈ cs.head?, c ∉ blanks := by
  cases cs with
  | nil => simp only [stops_nil, List.head?_nil, Option.mem_def, reduceCtorEq, false_implies,
      implies_true]
  | cons c cs =>
    simp only [stops_cons, List.head?_cons, Option.mem_def, Option.some.injEq, forall_eq',
      Bool.eq_false_iff, ne_eq, isCollapsible_iff]

theorem trimsTo_iff {text core : String} :
    TrimsTo text core ↔ core = String.ofList (trim isCollapsible text.toList) := by
  constructor
  · rintro ⟨⟨before, after, rfl, first, last⟩, front, back⟩
    rw [← List.head?_reverse] at back
    have trimmed := trim_around (fun c mem => isCollapsible_iff.2 (first c mem))
      (fun c mem => isCollapsible_iff.2 (last c mem)) (stops_iff.2 front) (stops_iff.2 back)
    rw [String.toList_append, String.toList_append, trimmed, String.ofList_toList]
  · rintro rfl
    obtain ⟨before, after, split, first, last⟩ := exists_around_trim isCollapsible text.toList
    constructor
    · refine ⟨String.ofList before, String.ofList after, ?_, ?_, ?_⟩
      · rw [← String.ofList_append, ← String.ofList_append, ← split, String.ofList_toList]
      · rw [String.toList_ofList]
        exact fun c mem => isCollapsible_iff.1 (first c mem)
      · rw [String.toList_ofList]
        exact fun c mem => isCollapsible_iff.1 (last c mem)
    · rw [String.toList_ofList]
      exact stops_iff.1 (stops_trim _ _)
    · rw [String.toList_ofList, ← List.head?_reverse]
      exact stops_iff.1 (stops_reverse_trim _ _)

theorem isTextual_iff {s : Source} : isTextual s = true ↔ s.IsTextual := by
  unfold isTextual Source.IsTextual
  cases s.flatten <;> simp [Source.kind]

theorem carried?_of_isTextual {s : Source} (t : DataType) (h : isTextual s = true) :
    t.carried? s.flatten = none := by
  unfold isTextual at h
  cases flat : s.flatten with
  | text _ | node _ _ | sequence _ => cases t <;> rfl
  | _ => simp only [flat, Bool.false_eq_true] at h

theorem collapse_textual {s : Source} (textual : isTextual s = true) {text : String}
    (has : s.text? = some text) :
    isTextual (collapse s) = true ∧
      (collapse s).text? = some (String.ofList (trim isCollapsible text.toList)) := by
  rw [collapse, if_pos textual, has]
  simp only
  split
  · rename_i clean
    exact ⟨textual, by rw [has, clean]⟩
  · exact ⟨rfl, rfl⟩

theorem prepare_of_collapses {r : Registry} (collapses : r.settings.collapseWhitespace = true)
    {t : DataType} (named : t ≠ .string) (s : Source) : r.prepare t s = collapse s := by
  rw [prepare, collapses, Bool.true_and, if_pos (bne_iff_ne.2 named)]

theorem prepare_of_keeps {r : Registry} (keeps : r.settings.collapseWhitespace = false)
    (t : DataType) (s : Source) : r.prepare t s = s := by
  rw [prepare, keeps, Bool.false_and, if_neg Bool.false_ne_true]

theorem prepare_string (r : Registry) (s : Source) : r.prepare .string s = s := by
  rw [prepare, bne_self_eq_false, Bool.and_false, if_neg Bool.false_ne_true]

theorem prepare_of_no_text (r : Registry) (t : DataType) {s : Source} (textless : s.text? = none) :
    r.prepare t s = s := by
  unfold prepare collapse
  simp only [textless, ite_self]

end Registry

theorem alike_of_read {t : DataType} {s s' : Source} {text : String}
    (uncarried : t.carried? s.flatten = none) (uncarried' : t.carried? s'.flatten = none)
    (has : s.text? = some text) (has' : s'.text? = some text) :
    Alike (t.convert s) (t.convert s') := by
  rw [DataType.convert_of_text? uncarried has, DataType.convert_of_text? uncarried' has']
  cases t.read text with
  | ok v => exact .converted v
  | error cause => exact .refused t _ _ text cause

namespace Registry

theorem convert_congr {c p : Registry} {i : String} {s : Source} (same : c.get? i = p.get? i)
    (prepared : ∀ t, p.get? i = some t → c.prepare t s = p.prepare t s) :
    c.convert i s = p.convert i s := by
  cases found : p.get? i with
  | none =>
    rw [found] at same
    have absent : c.contains i = false := by rw [contains_eq_isSome, same, Option.isSome_none]
    have absent' : p.contains i = false := by rw [contains_eq_isSome, found, Option.isSome_none]
    rw [convert_of_not_contains absent, convert_of_not_contains absent']
  | some t => rw [convert_of_get? (same.trans found), convert_of_get? found, prepared t found]

/-- Of two registries with the same datatypes, the one that drops blanks makes of a source what the
one that keeps them makes of its text trimmed, and the same as it of strings and of what has no text
to trim. An attribute has the category of the source as it was given. -/
theorem collapsing_trims_and_no_more {c p : Registry} (same : ∀ i, c.get? i = p.get? i)
    (collapses : c.settings.collapseWhitespace = true)
    (keeps : p.settings.collapseWhitespace = false) :
    (∀ (i : String) (t : DataType) (s : Source) (text : String), p.get? i = some t → t ≠ .string →
      s.IsTextual → s.text? = some text →
      (∃! core, TrimsTo text core) ∧
        ∀ core, TrimsTo text core → Alike (c.convert i s) (p.convert i (.text core))) ∧
    (∀ (i : String) (s : Source), ¬s.IsTextual ∨ s.text? = none ∨ p.get? i = some .string →
      c.convert i s = p.convert i s ∧ c.create i s = p.create i s) ∧
    ∀ (r : Registry) (i : String) (s : Source),
      r.create i s = (r.convert i s).map fun v => ⟨v.dataType, v, s.category?⟩ := by
  refine ⟨fun i t s text found named textual has => ⟨?_, fun core trims => ?_⟩,
    fun i s other => ?_, create_eq_map_convert⟩
  · exact ⟨_, trimsTo_iff.2 rfl, fun core trims => trimsTo_iff.1 trims⟩
  · obtain rfl := trimsTo_iff.1 trims
    obtain ⟨textual', has'⟩ := collapse_textual (isTextual_iff.2 textual) has
    rw [convert_of_get? ((same i).trans found), convert_of_get? found,
      prepare_of_collapses collapses named, prepare_of_keeps keeps]
    exact alike_of_read (carried?_of_isTextual t textual') (t.carried?_text _) has' rfl
  · have unprepared : c.convert i s = p.convert i s := by
      refine convert_congr (same i) fun t found => ?_
      rw [prepare_of_keeps keeps]
      rcases other with carried | textless | string
      · exact c.prepare_of_not_textual t (Bool.eq_false_iff.2 (mt isTextual_iff.1 carried))
      · exact c.prepare_of_no_text t textless
      · rw [found] at string
        rw [Option.some.inj string, prepare_string]
    exact ⟨unprepared, by rw [create_eq_map_convert, create_eq_map_convert, unprepared]⟩

theorem spaced_number_read_as_trimmed :
    let c : Registry := ⟨.lenient⟩
    let p : Registry := ⟨{ disabled := ["urn:example:unknown"] }⟩
    let i := DataType.integer.identifier
    let number : Source := .sequence [.text "\t-4", .integer 2, .node " \n" none]
    Alike (c.convert i number) (p.convert i (.text "-42")) ∧
      c.convert i number = .ok (.integer (-42)) ∧
      c.convert i (.bytes [32]) = p.convert i (.bytes [32]) := by
  intro c p i number
  have listed : c.entries = p.entries := by decide +kernel
  have same : ∀ i, c.get? i = p.get? i := fun i => by rw [get?, get?, listed]
  have found : p.get? i = some .integer := by decide +kernel
  obtain ⟨trimmed, other, -⟩ := collapsing_trims_and_no_more same rfl rfl
  have has : number.text? = some "\t-42 \n" := by decide +kernel
  have trims : TrimsTo "\t-42 \n" "-42" := trimsTo_iff.2 (by decide +kernel)
  have alike := (trimmed i .integer number _ found (by decide) (by decide) has).2 "-42" trims
  refine ⟨alike, ?_, (other i (.bytes [32]) (.inr (.inl rfl))).1⟩
  decide +kernel

end Registry

end PolicyValues
