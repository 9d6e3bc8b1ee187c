import Mathlib.Computability.Language
import PolicyValues.Proofs.Text.Written

/-!
Readers and the grammars they follow. A reader that follows a grammar takes a text of it from the
front, and where it gives up, what stands before that place still begins a text of it. Readers in a
row follow their grammars in a row.
-/
namespace PolicyValues
open Text

namespace Text

def Begins (grammar : Language Char) (front : List Char) : Prop := ∃ more, front ++ more ∈ grammar

variable {g h : Language Char}

theorem begins_of_mem {text : List Char} (mem : text ∈ g) : Begins g text :=
  ⟨[], by rwa [List.append_nil]⟩

theorem begins_nil_of_mem {text : List Char} (mem : text ∈ g) : Begins g [] := ⟨text, mem⟩

theorem begins_singleton (c : Char) : Begins {[c]} [] := begins_nil_of_mem rfl

theorem Begins.mono {front : List Char} (begins : Begins g front) (sub : ∀ cs ∈ g, cs ∈ h) :
    Begins h front := by
  obtain ⟨more, mem⟩ := begins
  exact ⟨more, sub _ mem⟩

theorem Begins.mul {front : List Char} (first : Begins g front) (second : Begins h []) :
    Begins (g * h) front := by
  obtain ⟨more, mem⟩ := first
  obtain ⟨behind, mem'⟩ := second
  exact ⟨more ++ behind, Language.mem_mul.2 ⟨_, mem, _, mem', List.append_assoc _ _ _⟩⟩

theorem Begins.append {front back : List Char} (mem : front ∈ g) (begins : Begins h back) :
    Begins (g * h) (front ++ back) := by
  obtain ⟨more, mem'⟩ := begins
  exact ⟨more, Language.mem_mul.2 ⟨_, mem, _, mem', (List.append_assoc _ _ _).symm⟩⟩

theorem byteLength_toList (text : String) : byteLength text.toList = text.utf8ByteSize := by
  have counted (cs : List Char) : byteLength cs = (String.ofList cs).utf8ByteSize := by
    induction cs with
    | nil => rfl
    | cons c cs ih =>
      rw [byteLength, ih, String.ofList_cons, String.utf8ByteSize_append,
        String.utf8ByteSize_singleton]
  rw [counted, String.ofList_toList]

end Text

namespace Reader

/-- What a reader answers to a text, against a grammar that it is to follow. -/
structure Follows {α : Type} (grammar : Language Char) (cs : List Char)
    (answer : Except Stop (α × List Char)) : Prop where
  taken : ∀ a rest, answer = .ok (a, rest) → ∃ front ∈ grammar, cs = front ++ rest
  viable : ∀ rest reason, answer = .error (.malformed rest reason) →
    ∃ front, Begins grammar front ∧ cs = front ++ rest

variable {α β : Type} {g h : Language Char} {cs : List Char}

theorem Follows.ok {front rest : List Char} (mem : front ∈ g) (a : α) :
    Follows g (front ++ rest) (.ok (a, rest)) where
  taken := by
    rintro a' rest' same
    obtain ⟨-, rfl⟩ := Prod.mk.inj (Except.ok.inj same)
    exact ⟨front, mem, rfl⟩
  viable := nofun

theorem Follows.malformed {front rest : List Char} (begins : Begins g front)
    (reason : Malformation) :
    Follows (α := α) g (front ++ rest) (.error (.malformed rest reason)) where
  taken := nofun
  viable := by
    rintro rest' reason' same
    obtain ⟨rfl, -⟩ := Stop.malformed.inj (Except.error.inj same)
    exact ⟨front, begins, rfl⟩

theorem Follows.outOfRange (subject : Subject) (reason : RangeFault) :
    Follows (α := α) g cs (.error (.outOfRange subject reason)) := ⟨nofun, nofun⟩

theorem Follows.pure (a : α) (cs : List Char) : Follows 1 cs (.ok (a, cs)) := by
  have nothing : Follows 1 ([] ++ cs) (.ok (a, cs)) := .ok Language.nil_mem_one a
  exact nothing

theorem Follows.mono {answer : Except Stop (α × List Char)} (follows : Follows g cs answer)
    (sub : ∀ cs ∈ g, cs ∈ h) : Follows h cs answer where
  taken := by
    intro a rest same
    obtain ⟨front, mem, split⟩ := follows.taken a rest same
    exact ⟨front, sub _ mem, split⟩
  viable := by
    intro rest reason same
    obtain ⟨front, begins, split⟩ := follows.viable rest reason same
    exact ⟨front, begins.mono sub, split⟩

theorem Follows.bind {answer : Except Stop (α × List Char)}
    {next : α × List Char → Except Stop (β × List Char)} (first : Follows g cs answer)
    (some_text : Begins h []) (second : ∀ a rest, Follows h rest (next (a, rest))) :
    Follows (g * h) cs (answer >>= next) := by
  match answer with
  | .ok (a, rest) =>
    obtain ⟨front, mem, rfl⟩ := first.taken a rest rfl
    refine ⟨fun b behind same => ?_, fun behind reason same => ?_⟩
    · obtain ⟨back, mem', rfl⟩ := (second a rest).taken b behind same
      exact ⟨front ++ back, Language.mem_mul.2 ⟨front, mem, back, mem', rfl⟩,
        (List.append_assoc _ _ _).symm⟩
    · obtain ⟨back, begins, rfl⟩ := (second a rest).viable behind reason same
      exact ⟨front ++ back, begins.append mem, (List.append_assoc _ _ _).symm⟩
  | .error (.malformed rest reason) =>
    obtain ⟨front, begins, rfl⟩ := first.viable rest reason rfl
    exact .malformed (begins.mul some_text) reason
  | .error (.outOfRange subject reason) => exact .outOfRange subject reason

theorem Follows.finish {answer : Except Stop (α × List Char)}
    {next : α × List Char → Except Stop (β × List Char)} (first : Follows g cs answer)
    (second : ∀ a rest, Follows 1 rest (next (a, rest))) : Follows g cs (answer >>= next) := by
  have both := first.bind (begins_nil_of_mem Language.nil_mem_one) second
  rwa [mul_one] at both

theorem Follows.cons {answer : Except Stop (α × List Char)} (follows : Follows g cs answer)
    (c : Char) : Follows ({[c]} * g) (c :: cs) answer where
  taken := by
    intro a rest same
    obtain ⟨front, mem, rfl⟩ := follows.taken a rest same
    exact ⟨c :: front, Language.mem_mul.2 ⟨[c], rfl, front, mem, rfl⟩, rfl⟩
  viable := by
    intro rest reason same
    obtain ⟨front, begins, rfl⟩ := follows.viable rest reason same
    have mem : [c] ∈ ({[c]} : Language Char) := rfl
    exact ⟨c :: front, begins.append mem, rfl⟩

theorem Follows.begins_of_whole {read : Reader α} (follows : Follows g cs (read cs))
    {rest : List Char} {reason : Malformation}
    (stopped : Reader.whole read cs = .error (.malformed rest reason)) :
    ∃ front, Begins g front ∧ cs = front ++ rest := by
  unfold Reader.whole at stopped
  split at stopped
  · rename_i stop failed
    obtain rfl := Except.error.inj stopped
    exact follows.viable rest reason failed
  · simp only [reduceCtorEq] at stopped
  · rename_i a behind _ read
    obtain ⟨rfl, -⟩ := Stop.malformed.inj (Except.error.inj stopped)
    obtain ⟨front, mem, split⟩ := follows.taken a behind read
    exact ⟨front, begins_of_mem mem, split⟩

/-! ## Marks and digits -/

theorem Follows.of_start {answer : Except Stop (α × List Char)} (some_text : Begins g [])
    (taken : ∀ a rest, answer = .ok (a, rest) → ∃ front ∈ g, cs = front ++ rest)
    (start : ∀ rest reason, answer = .error (.malformed rest reason) → rest = cs) :
    Follows g cs answer where
  taken := taken
  viable := by
    intro rest reason stopped
    exact ⟨[], some_text, (start rest reason stopped).symm⟩

theorem mark_follows (expected : Char) (place : String) (cs : List Char) :
    Follows {[expected]} cs (mark expected place cs) := by
  refine .of_start (begins_singleton expected) ?_ ?_
  · intro _ rest taken
    exact ⟨[expected], rfl, mark_eq_ok_iff.1 taken⟩
  · intro rest reason stopped
    unfold mark at stopped
    split at stopped
    · split at stopped
      · simp only [reduceCtorEq] at stopped
      · exact (Stop.malformed.inj (Except.error.inj stopped)).1.symm
    · exact (Stop.malformed.inj (Except.error.inj stopped)).1.symm

end Reader

namespace Digits

def fields (width : ℕ) : Language Char := {cs | ∃ field : Field width, field.chars = cs}

theorem begins_fields (width : ℕ) : Begins (fields width) [] :=
  begins_nil_of_mem ⟨.zeros width, rfl⟩

def signedRuns (least : ℕ) : Language Char :=
  {cs | ∃ (minus : Bool) (ds : List Char), signChars minus ++ ds = cs ∧
    (∀ c ∈ ds, c.isDigit = true) ∧ least ≤ ds.length}

theorem begins_signedRuns (least : ℕ) : Begins (signedRuns least) [] := by
  have zeros := Field.zeros least
  exact begins_nil_of_mem ⟨false, zeros.chars, rfl, zeros.digits, zeros.length_eq.ge⟩

end Digits

namespace Reader

theorem eq_of_digits_eq_error {width : ℕ} {field : String} {stop : Stop}
    (h : digits width field cs = .error stop) : stop = .malformed cs (.digits width field) := by
  unfold digits at h
  split at h
  · simp only [reduceCtorEq] at h
  · exact (Except.error.inj h).symm

theorem digits_follows {width : ℕ} (narrow : width ≤ 9) (field : String) (cs : List Char) :
    Follows (Digits.fields width) cs (digits width field cs) := by
  refine .of_start (Digits.begins_fields width) ?_ ?_
  · intro n rest taken
    obtain ⟨written, split, _⟩ := (digits_eq_ok_iff narrow).1 taken
    exact ⟨written.chars, ⟨written, rfl⟩, split⟩
  · intro rest reason stopped
    exact (Stop.malformed.inj (eq_of_digits_eq_error stopped)).1

theorem signed_follows {least : ℕ} (positive : 0 < least) (field : String) (cs : List Char) :
    Follows (Digits.signedRuns least) cs (signed least field cs) := by
  refine .of_start (Digits.begins_signedRuns least) ?_ ?_
  · intro n rest taken
    obtain ⟨minus, ds, split, digits, enough, _⟩ := (signed_eq_ok_iff positive).1 taken
    exact ⟨_, ⟨minus, ds, rfl, digits, enough⟩, split⟩
  · intro rest reason stopped
    unfold signed at stopped
    split at stopped
    · exact (Stop.malformed.inj (Except.error.inj stopped)).1.symm
    · split at stopped
      · exact (Stop.malformed.inj (Except.error.inj stopped)).1.symm
      · simp only [reduceCtorEq] at stopped

end Reader

/-! ## Whole texts -/

def AcceptedOrOutOfRange {α : Type} (answer : Except ValueError α) : Prop :=
  (∃ a, answer = .ok a) ∨ ∃ subject reason, answer = .error (.outOfRange subject reason)

theorem AcceptedOrOutOfRange.not_malformed {α : Type} {answer : Except ValueError α}
    (h : AcceptedOrOutOfRange answer) {subject : Subject} {input : String} {offset : ℕ}
    {reason : Malformation} : answer ≠ .error (.malformed subject input offset reason) := by
  rcases h with ⟨a, rfl⟩ | ⟨blamed, fault, rfl⟩ <;> exact nofun

theorem AcceptedOrOutOfRange.map {α β : Type} {answer : Except ValueError α}
    (h : AcceptedOrOutOfRange answer) (f : α → β) : AcceptedOrOutOfRange (answer.map f) := by
  rcases h with ⟨a, rfl⟩ | ⟨blamed, fault, rfl⟩
  · exact .inl ⟨f a, rfl⟩
  · exact .inr ⟨blamed, fault, rfl⟩

/-- A fault in a text: the text is carried whole, the offset is a place between two characters of
it, and what stands before that place begins a text of the grammar. -/
structure MarksViablePrefix (grammar : Language Char) (text input : String) (offset : ℕ) :
    Prop where
  whole : input = text
  within : offset ≤ text.utf8ByteSize
  boundary : String.Pos.Raw.IsValid text ⟨offset⟩
  viable : ∃ front back : String, text = front ++ back ∧ front.utf8ByteSize = offset ∧
    ∃ more : String, (front ++ more).toList ∈ grammar

theorem Reader.Follows.marksViablePrefix {α : Type} {g : Language Char} {read : Reader α}
    {text input : String} {stop : Stop} {subject blamed : Subject} {offset : ℕ}
    {reason : Malformation} (follows : Follows g text.toList (read text.toList))
    (stopped : Reader.whole read text.toList = .error stop)
    (fault : stop.within subject text.toList = .malformed blamed input offset reason) :
    MarksViablePrefix g text input offset := by
  match stop with
  | .malformed rest _ =>
    obtain ⟨front, ⟨more, mem⟩, split⟩ := follows.begins_of_whole stopped
    obtain ⟨-, rfl, rfl, -⟩ := ValueError.malformed.inj fault
    have same : text = String.ofList front ++ String.ofList rest := by
      rw [← String.ofList_append, ← split, String.ofList_toList]
    have size : (String.ofList front).utf8ByteSize = offsetOf text.toList rest := by
      rw [split, offsetOf_append, ← byteLength_toList, String.toList_ofList]
    refine ⟨String.ofList_toList, ?_, ?_, String.ofList front, String.ofList rest, same, size,
      String.ofList more, ?_⟩
    · rw [← size, same, String.utf8ByteSize_append]
      exact Nat.le_add_right _ _
    · rw [String.Pos.Raw.isValid_iff_exists_append, ← size]
      exact ⟨_, _, same, rfl⟩
    · rwa [← String.ofList_append, String.toList_ofList]
  | .outOfRange _ _ => simp only [Stop.within, reduceCtorEq] at fault

end PolicyValues
