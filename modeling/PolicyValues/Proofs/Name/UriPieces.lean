import PolicyValues.Proofs.Name.RoundTrip
import PolicyValues.Proofs.Text.Characters
import PolicyValues.Proofs.Text.LongestFront

/-!
References as rows of pieces: characters that may stand for themselves, and percent escapes. The
check takes one piece after the other, and where it stops, the pieces before are the longest front
part that is a reference.
-/
namespace PolicyValues.Uri
open Text
open scoped Computability

def IsLetter (c : Char) : Prop := ('A' ≤ c ∧ c ≤ 'Z') ∨ ('a' ≤ c ∧ c ≤ 'z')

def IsDigit (c : Char) : Prop := '0' ≤ c ∧ c ≤ '9'

def IsHexadecimal (c : Char) : Prop := IsDigit c ∨ ('A' ≤ c ∧ c ≤ 'F') ∨ ('a' ≤ c ∧ c ≤ 'f')

/-- The unreserved characters of RFC 3986, its two kinds of delimiters, and its escapes. -/
inductive IsPiece : List Char → Prop
  | unreserved {c : Char} (h : IsLetter c ∨ IsDigit c ∨ c ∈ "-._~".toList) : IsPiece [c]
  | general {c : Char} (h : c ∈ ":/?#[]@".toList) : IsPiece [c]
  | sub {c : Char} (h : c ∈ "!$&'()*+,;=".toList) : IsPiece [c]
  | escape {high low : Char} (first : IsHexadecimal high) (second : IsHexadecimal low) :
    IsPiece ['%', high, low]

def pieces : Language Char := {cs | IsPiece cs}

def grammar : Language Char := pieces∗

theorem isHexDigit_iff {c : Char} : isHexDigit c = true ↔ IsHexadecimal c := by
  have codes : IsHexadecimal c ↔ (48 ≤ c.toNat ∧ c.toNat ≤ 57) ∨ (65 ≤ c.toNat ∧ c.toNat ≤ 70) ∨
      (97 ≤ c.toNat ∧ c.toNat ≤ 102) := by
    simp only [IsHexadecimal, IsDigit, Char.le_def, UInt32.le_iff_toNat_le]
    rfl
  rw [codes, isHexDigit, hexValue?]
  grind

theorem isAlphanum_iff {c : Char} : c.isAlphanum = true ↔ IsLetter c ∨ IsDigit c := by
  have upper : c.isUpper = true ↔ 'A' ≤ c ∧ c ≤ 'Z' := decide_eq_true_iff
  have lower : c.isLower = true ↔ 'a' ≤ c ∧ c ≤ 'z' :=
    Bool.and_eq_true_iff.trans (and_congr decide_eq_true_iff decide_eq_true_iff)
  have digit : c.isDigit = true ↔ '0' ≤ c ∧ c ≤ '9' :=
    Bool.and_eq_true_iff.trans (and_congr decide_eq_true_iff decide_eq_true_iff)
  have classes : c.isAlphanum = (c.isUpper || c.isLower || c.isDigit) := rfl
  rw [classes, Bool.or_eq_true, Bool.or_eq_true, upper, lower, digit]
  rfl

theorem isUriChar_iff {c : Char} : isUriChar c = true ↔ IsPiece [c] := by
  have marks : c ∈ "-._~:/?#[]@!$&'()*+,;=".toList ↔
      c ∈ "-._~".toList ∨ c ∈ ":/?#[]@".toList ∨ c ∈ "!$&'()*+,;=".toList := by
    have parts : "-._~:/?#[]@!$&'()*+,;=".toList =
        "-._~".toList ++ (":/?#[]@".toList ++ "!$&'()*+,;=".toList) := by decide
    rw [parts, List.mem_append, List.mem_append]
  rw [isUriChar, Bool.or_eq_true, List.contains_iff_mem, isAlphanum_iff, marks]
  constructor
  · rintro ((letter | digit) | mark | mark | mark)
    · exact .unreserved (.inl letter)
    · exact .unreserved (.inr (.inl digit))
    · exact .unreserved (.inr (.inr mark))
    · exact .general mark
    · exact .sub mark
  · rintro (⟨letter | digit | mark⟩ | mark | mark)
    · exact .inl (.inl letter)
    · exact .inl (.inr digit)
    · exact .inr (.inl mark)
    · exact .inr (.inr (.inl mark))
    · exact .inr (.inr (.inr mark))

theorem isPiece_iff {piece : List Char} : IsPiece piece ↔
    (∃ c, isUriChar c = true ∧ piece = [c]) ∨
      ∃ high low, isHexDigit high = true ∧ isHexDigit low = true ∧ piece = ['%', high, low] := by
  constructor
  · rintro (⟨h⟩ | h | h | ⟨first, second⟩)
    · exact .inl ⟨_, isUriChar_iff.2 (.unreserved h), rfl⟩
    · exact .inl ⟨_, isUriChar_iff.2 (.general h), rfl⟩
    · exact .inl ⟨_, isUriChar_iff.2 (.sub h), rfl⟩
    · exact .inr ⟨_, _, isHexDigit_iff.2 first, isHexDigit_iff.2 second, rfl⟩
  · rintro (⟨c, allowed, rfl⟩ | ⟨high, low, first, second, rfl⟩)
    · exact isUriChar_iff.1 allowed
    · exact .escape (isHexDigit_iff.1 first) (isHexDigit_iff.1 second)

theorem check_cons {c : Char} (plain : c ≠ '%') (cs : List Char) :
    check (c :: cs) =
      if isUriChar c = true then check cs else .error (.malformed (c :: cs) .uriCharacter) := by
  rw [check.eq_3 _ _ fun _ _ _ same => absurd same plain, if_neg plain]

theorem check_piece {piece : List Char} (h : IsPiece piece) (rest : List Char) :
    check (piece ++ rest) = check rest := by
  rcases isPiece_iff.1 h with ⟨c, allowed, rfl⟩ | ⟨high, low, first, second, rfl⟩
  · have plain : c ≠ '%' := by
      rintro rfl
      exact absurd allowed (by decide)
    rw [List.singleton_append, check_cons plain, if_pos allowed]
  · simp only [List.cons_append, List.nil_append, check, first, second, Bool.and_self, if_true]

theorem append_mem_grammar {piece cs : List Char} (h : IsPiece piece) (mem : cs ∈ grammar) :
    piece ++ cs ∈ grammar := by
  obtain ⟨row, rfl, each⟩ := Language.mem_kstar.1 mem
  exact Language.mem_kstar.2 ⟨piece :: row, rfl, List.forall_mem_cons.2 ⟨h, each⟩⟩

theorem check_append {front : List Char} (mem : front ∈ grammar) (rest : List Char) :
    check (front ++ rest) = check rest := by
  rw [grammar, Language.mem_kstar] at mem
  obtain ⟨row, rfl, each⟩ := mem
  induction row with
  | nil => rfl
  | cons piece row ih =>
    obtain ⟨first, more⟩ := List.forall_mem_cons.1 each
    rw [List.flatten_cons, List.append_assoc, check_piece first, ih more]

def fault (c : Char) : Malformation := if c = '%' then .uriEscape else .uriCharacter

theorem blame_fault (c : Char) : (fault c).blame .anyURI = .anyURI := by
  unfold fault
  split <;> rfl

def verdict : List Char → Except Stop Unit
  | [] => .ok ()
  | c :: cs => .error (.malformed (c :: cs) (fault c))

theorem exists_front (cs : List Char) :
    ∃ front ∈ grammar, ∃ rest, cs = front ++ rest ∧ check cs = verdict rest := by
  have nothing : [] ∈ grammar := Language.nil_mem_kstar pieces
  fun_induction check cs with
  | case1 => exact ⟨[], nothing, [], rfl, rfl⟩
  | case2 a b cs hex ih =>
    obtain ⟨first, second⟩ := Bool.and_eq_true_iff.1 hex
    obtain ⟨front, mem, rest, rfl, checked⟩ := ih
    have escape : IsPiece ['%', a, b] :=
      .escape (isHexDigit_iff.1 first) (isHexDigit_iff.1 second)
    exact ⟨_, append_mem_grammar escape mem, rest, rfl, checked⟩
  | case3 a b cs => exact ⟨[], nothing, _, rfl, rfl⟩
  | case4 cs => exact ⟨[], nothing, _, rfl, rfl⟩
  | case5 c cs _ _ allowed ih =>
    obtain ⟨front, mem, rest, rfl, checked⟩ := ih
    exact ⟨_, append_mem_grammar (isUriChar_iff.1 allowed) mem, rest, rfl, checked⟩
  | case6 c cs _ plain => exact ⟨[], nothing, _, rfl, by rw [verdict, fault, if_neg plain]⟩

theorem check_eq_ok_iff {cs : List Char} : check cs = .ok () ↔ cs ∈ grammar := by
  constructor
  · intro checked
    obtain ⟨front, mem, rest, rfl, stopped⟩ := exists_front cs
    rw [checked] at stopped
    cases rest with
    | nil => rwa [List.append_nil]
    | cons c rest => simp only [verdict, reduceCtorEq] at stopped
  · intro mem
    have checked := check_append mem []
    rwa [List.append_nil] at checked

theorem eq_of_verdict {c : Char} {rest cs : List Char} (same : verdict rest = verdict (c :: cs)) :
    c :: cs = rest := by
  cases rest with
  | nil => simp only [verdict, reduceCtorEq] at same
  | cons d ds => exact (Stop.malformed.inj (Except.error.inj same)).1.symm

theorem parse_eq_ok_iff {text : String} {u : Uri} :
    parse text = .ok u ↔ text.toList ∈ grammar ∧ u.text = text := by
  rw [← check_eq_ok_iff]
  constructor
  · intro parsed
    refine ⟨?_, text_of_parse parsed⟩
    unfold parse at parsed
    split at parsed
    · assumption
    · simp only [reduceCtorEq] at parsed
  · rintro ⟨checked, rfl⟩
    rw [parse, checked]

theorem longestFront_of_verdict {text : String} {front cs : List Char} {c : Char}
    (mem : front ∈ grammar) (split : text.toList = front ++ c :: cs)
    (checked : check text.toList = verdict (c :: cs)) :
    LongestFront (fun front => ∃ u, parse front = .ok u) text
      (offsetOf text.toList (c :: cs)) := by
  refine .of_suffix split ⟨⟨String.ofList front⟩, ?_⟩ fun other back split' read => ?_
  · exact parse_eq_ok_iff.2 ⟨by rwa [String.toList_ofList], rfl⟩
  · obtain ⟨u, read⟩ := read
    have mem' := (parse_eq_ok_iff.1 read).1
    rw [String.toList_ofList] at mem'
    -- Behind the other reference the check goes on to the place where it stopped.
    obtain ⟨more, _, rest, rfl, stopped⟩ := exists_front back
    rw [split', check_append mem', stopped] at checked
    rw [eq_of_verdict checked]
    exact List.suffix_append more rest

/-- A text is a reference exactly if it is a row of pieces, and is kept as it is. Any other text is
blamed where its longest front part that is a reference ends. -/
theorem accepted_as_row_of_pieces (text : String) :
    (∀ u, parse text = .ok u ↔ text.toList ∈ grammar ∧ u.text = text) ∧
    (text.toList ∉ grammar → ∃ offset reason,
      parse text = .error (.malformed .anyURI text offset reason) ∧
        LongestFront (fun front => ∃ u, parse front = .ok u) text offset) := by
  refine ⟨fun u => parse_eq_ok_iff, fun foreign => ?_⟩
  obtain ⟨front, mem, rest, split, checked⟩ := exists_front text.toList
  cases rest with
  | nil =>
    rw [List.append_nil] at split
    exact absurd (split ▸ mem) foreign
  | cons c rest =>
    refine ⟨_, fault c, ?_, longestFront_of_verdict mem split checked⟩
    simp only [parse, checked, verdict, Stop.within, blame_fault, String.ofList_toList]

theorem cut_escape_blamed_behind_reference :
    "x%41%4é".toList ∉ grammar ∧
      parse "x%41%4é" = .error (.malformed .anyURI "x%41%4é" 4 .uriEscape) ∧
      LongestFront (fun front => ∃ u, parse front = .ok u) "x%41%4é" 4 := by
  have foreign : "x%41%4é".toList ∉ grammar := by
    rw [← check_eq_ok_iff]
    decide
  have refused : parse "x%41%4é" = .error (.malformed .anyURI "x%41%4é" 4 .uriEscape) := by
    decide +kernel
  obtain ⟨offset, reason, blamed, longest⟩ := (accepted_as_row_of_pieces "x%41%4é").2 foreign
  rw [refused] at blamed
  obtain ⟨-, -, rfl, -⟩ := ValueError.malformed.inj (Except.error.inj blamed)
  exact ⟨foreign, refused, longest⟩

end PolicyValues.Uri
