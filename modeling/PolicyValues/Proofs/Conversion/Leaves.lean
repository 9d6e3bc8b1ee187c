import PolicyValues.Proofs.Conversion.Agreement

/-!
Sources as trees. A source reads as its leaves do, one after the other, in whatever sequences they
stand. Bytes alone have no text, so they are what conversions cannot be given, save for a binary
datatype that finds nothing else.
-/
namespace PolicyValues

namespace Source

mutual

def leaves : Source → List Source
  | sequence parts => leavesOfParts parts
  | s => [s]

def leavesOfParts : List Source → List Source
  | [] => []
  | s :: rest => s.leaves ++ leavesOfParts rest

end

/-- Each source has a text, and these texts in a row are the whole. -/
def Spell (sources : List Source) (text : String) : Prop :=
  ∃ texts, sources.map text? = texts.map some ∧ text = String.join texts

theorem spell_nil {text : String} : Spell [] text ↔ text = "" := by
  constructor
  · rintro ⟨texts, each, rfl⟩
    obtain rfl := List.map_eq_nil_iff.1 each.symm
    rfl
  · rintro rfl
    exact ⟨[], rfl, rfl⟩

theorem spell_singleton {s : Source} {text : String} : Spell [s] text ↔ s.text? = some text := by
  constructor
  · rintro ⟨texts, each, rfl⟩
    obtain ⟨first, texts, rfl, has, none⟩ := List.map_eq_cons_iff.1 each.symm
    obtain rfl := List.map_eq_nil_iff.1 none
    rw [← has, String.join_cons, String.join_nil, String.append_empty]
  · intro has
    refine ⟨[text], congrArg (fun first => [first]) has, ?_⟩
    rw [String.join_cons, String.join_nil, String.append_empty]

theorem spell_append {as bs : List Source} {text : String} :
    Spell (as ++ bs) text ↔ ∃ front back, Spell as front ∧ Spell bs back ∧ text = front ++ back := by
  constructor
  · rintro ⟨texts, each, rfl⟩
    rw [List.map_append] at each
    obtain ⟨before, after, rfl, first, second⟩ := List.map_eq_append_iff.1 each.symm
    exact ⟨_, _, ⟨before, first.symm, rfl⟩, ⟨after, second.symm, rfl⟩, String.join_append⟩
  · rintro ⟨_, _, ⟨before, first, rfl⟩, ⟨after, second, rfl⟩, rfl⟩
    refine ⟨before ++ after, ?_, String.join_append.symm⟩
    rw [List.map_append, List.map_append, first, second]

theorem textOfParts?_cons_eq_some_iff {s : Source} {rest : List Source} {text : String} :
    textOfParts? (s :: rest) = some text ↔
      ∃ front back, s.text? = some front ∧ textOfParts? rest = some back ∧ text = front ++ back := by
  rw [textOfParts?]
  cases s.text? with
  | none => simp only [reduceCtorEq, false_and, exists_false]
  | some first =>
    cases textOfParts? rest with
    | none => simp only [reduceCtorEq, false_and, and_false, exists_false]
    | some more => simp only [Option.some.injEq, exists_and_left, exists_eq_left', eq_comm]

theorem textOfParts?_cons_eq_none_iff {s : Source} {rest : List Source} :
    textOfParts? (s :: rest) = none ↔ s.text? = none ∨ textOfParts? rest = none := by
  rw [textOfParts?]
  cases s.text? with
  | none => simp only [true_or]
  | some first =>
    cases textOfParts? rest with
    | none => simp only [or_true]
    | some more => simp only [reduceCtorEq, or_self]

mutual

theorem text?_eq_some_iff (s : Source) (text : String) :
    s.text? = some text ↔ Spell s.leaves text :=
  match s with
  | sequence parts => textOfParts?_eq_some_iff parts text
  | .text _ | bytes _ | integer _ | double _ | boolean _ | value _ | node _ _ =>
    spell_singleton.symm

theorem textOfParts?_eq_some_iff (parts : List Source) (text : String) :
    textOfParts? parts = some text ↔ Spell (leavesOfParts parts) text :=
  match parts with
  | [] => by rw [textOfParts?, leavesOfParts, spell_nil, Option.some.injEq, eq_comm]
  | s :: rest => by
    have first := text?_eq_some_iff s
    have more := textOfParts?_eq_some_iff rest
    simp only [textOfParts?_cons_eq_some_iff, leavesOfParts, spell_append, first, more]

end

mutual

theorem text?_eq_none_iff (s : Source) : s.text? = none ↔ ∃ x, bytes x ∈ s.leaves :=
  match s with
  | sequence parts => textOfParts?_eq_none_iff parts
  | bytes x => iff_of_true rfl ⟨x, List.mem_singleton_self _⟩
  | .text _ | integer _ | double _ | boolean _ | value _ | node _ _ => by
    simp only [text?, leaves, List.mem_singleton, reduceCtorEq, exists_false]

theorem textOfParts?_eq_none_iff (parts : List Source) :
    textOfParts? parts = none ↔ ∃ x, bytes x ∈ leavesOfParts parts :=
  match parts with
  | [] => by simp only [textOfParts?, leavesOfParts, reduceCtorEq, List.not_mem_nil, exists_false]
  | s :: rest => by
    have first := text?_eq_none_iff s
    have more := textOfParts?_eq_none_iff rest
    simp only [textOfParts?_cons_eq_none_iff, leavesOfParts, List.mem_append, exists_or, first, more]

end

theorem text?_congr {s other : Source} (same : other.leaves = s.leaves) :
    other.text? = s.text? := by
  refine Option.ext fun text => ?_
  rw [text?_eq_some_iff, text?_eq_some_iff, same]

def wrap (s : Source) : ℕ → Source
  | 0 => s
  | depth + 1 => sequence [s.wrap depth]

theorem flatten_wrap (s : Source) (depth : ℕ) : (s.wrap depth).flatten = s.flatten := by
  induction depth with
  | zero => rfl
  | succ depth ih => rw [wrap, flatten, ih]

theorem text?_wrap (s : Source) (depth : ℕ) : (s.wrap depth).text? = s.text? := by
  rw [← text?_flatten, flatten_wrap, text?_flatten]

theorem category?_wrap (s : Source) (depth : ℕ) : (s.wrap depth).category? = s.category? := by
  rw [category?, flatten_wrap, category?]

end Source

namespace DataType

theorem convert_wrap (t : DataType) (s : Source) (depth : ℕ) :
    t.convert (s.wrap depth) = t.convert s := by
  rw [convert, Source.flatten_wrap, convert]

theorem carried?_eq_none_iff {t : DataType} {s : Source} (textless : s.text? = none) :
    t.carried? s = none ↔ ¬((t = .hexBinary ∨ t = .base64Binary) ∧ ∃ x, s = .bytes x) := by
  cases s with
  | bytes x => cases t <;> simp [carried?]
  | sequence parts => cases t <;> simp [carried?]
  | _ => simp only [Source.text?, reduceCtorEq] at textless

theorem convert_of_no_text {t : DataType} {s : Source} (uncarried : t.carried? s.flatten = none)
    (textless : s.text? = none) :
    t.convert s = .error (.unsupported t.identifier s.flatten.kind) := by
  rw [← Source.text?_flatten] at textless
  simp only [convert, uncarried, textless]

theorem exists_unsupported_iff {t : DataType} {s : Source} :
    (∃ identifier kind, t.convert s = .error (.unsupported identifier kind)) ↔
      t.carried? s.flatten = none ∧ s.text? = none := by
  constructor
  · rintro ⟨identifier, kind, refused⟩
    cases carried : t.carried? s.flatten with
    | some v =>
      rw [convert_of_carried? carried] at refused
      simp only [reduceCtorEq] at refused
    | none =>
      refine ⟨rfl, Option.eq_none_iff_forall_ne_some.2 fun text has => ?_⟩
      rw [convert_of_text? carried has] at refused
      cases read : t.read text with
      | ok v => simp only [read, Except.mapError, reduceCtorEq] at refused
      | error cause => simp only [read, Except.mapError, Except.error.injEq, reduceCtorEq] at refused
  · rintro ⟨uncarried, textless⟩
    exact ⟨_, _, convert_of_no_text uncarried textless⟩

end DataType

/-- A source reads as its leaves in a row, however they are grouped, and a lone part as itself. What
has no text is what has bytes in it, and it cannot be converted unless a binary datatype finds
nothing else. -/
theorem Source.read_as_its_leaves (s : Source) :
    (s.text? = none ↔ ∃ x, bytes x ∈ s.leaves) ∧
    (∀ text, s.text? = some text ↔ Spell s.leaves text) ∧
    (∀ other : Source, other.leaves = s.leaves → other.text? = s.text?) ∧
    (∀ depth, (s.wrap depth).text? = s.text? ∧ (s.wrap depth).category? = s.category? ∧
      ∀ t : DataType, t.convert (s.wrap depth) = t.convert s) ∧
    ∀ t : DataType, (∃ identifier kind, t.convert s = .error (.unsupported identifier kind)) ↔
      (∃ x, bytes x ∈ s.leaves) ∧
        ¬((t = .hexBinary ∨ t = .base64Binary) ∧ ∃ x, s.flatten = bytes x) := by
  refine ⟨s.text?_eq_none_iff, s.text?_eq_some_iff, fun other => text?_congr, fun depth => ?_,
    fun t => ?_⟩
  · exact ⟨s.text?_wrap depth, s.category?_wrap depth, fun t => t.convert_wrap s depth⟩
  · rw [DataType.exists_unsupported_iff, ← text?_eq_none_iff, and_comm]
    refine and_congr_right fun textless => DataType.carried?_eq_none_iff ?_
    rw [text?_flatten, textless]

theorem Source.grouped_date_reads_as_date :
    let front : Source := sequence [.text "2014-", sequence []]
    let back : Source := sequence [sequence [node "02-" none], integer 28]
    (sequence [front, back]).text? = some "2014-02-28" ∧
      ∃ identifier kind, DataType.hexBinary.convert (sequence [bytes [20], .text ""]) =
        .error (.unsupported identifier kind) := by
  intro front back
  have spell : Spell (sequence [front, back]).leaves "2014-02-28" :=
    ⟨["2014-", "02-", "28"], by decide +kernel, by decide +kernel⟩
  obtain ⟨-, spells, -⟩ := read_as_its_leaves (sequence [front, back])
  obtain ⟨-, -, -, -, unsupported⟩ := read_as_its_leaves (sequence [bytes [20], .text ""])
  refine ⟨(spells _).2 spell, (unsupported .hexBinary).2 ⟨⟨[20], List.mem_cons_self⟩, ?_⟩⟩
  rintro ⟨-, x, lone⟩
  exact absurd lone nofun

end PolicyValues
