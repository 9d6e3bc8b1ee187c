import PolicyValues.Toml.Reader

/-!
Dialects compared. A document of the strict dialect is one of the lenient dialect and says the same
there; a second byte order mark is no document in any.
-/
namespace PolicyValues.Toml

namespace Draft

theorem alter?_mono {key : String} {f g : Option Draft → Option Draft}
    (le : ∀ old d, f old = some d → g old = some d) {members : Members} :
    ∀ {altered : Members}, alter? key f members = some altered →
      alter? key g members = some altered := by
  induction members with
  | nil =>
    intro altered h
    obtain ⟨d, made, rfl⟩ := Option.map_eq_some_iff.1 h
    rw [alter?, le _ _ made, Option.map_some]
  | cons m rest ih =>
    intro altered h
    obtain ⟨k, d⟩ := m
    unfold alter? at h ⊢
    split at h
    · rename_i same
      obtain ⟨d', made, rfl⟩ := Option.map_eq_some_iff.1 h
      rw [if_pos same, le _ _ made, Option.map_some]
    · rename_i other
      obtain ⟨rest', more, rfl⟩ := Option.map_eq_some_iff.1 h
      rw [if_neg other, ih more, Option.map_some]

theorem within?_mono {path : List String} {f g : Members → Option Members}
    (le : ∀ members written, f members = some written → g members = some written) :
    ∀ {members written : Members}, within? path f members = some written →
      within? path g members = some written := by
  induction path with
  | nil => exact fun made => le _ _ made
  | cons key path ih =>
    intro members written made
    refine alter?_mono (fun old d made => ?_) made
    split at made
    · obtain ⟨inner, inside, rfl⟩ := Option.map_eq_some_iff.1 made
      exact Option.map_eq_some_iff.2 ⟨inner, ih inside, rfl⟩
    · obtain ⟨inner, inside, rfl⟩ := Option.map_eq_some_iff.1 made
      exact Option.map_eq_some_iff.2 ⟨inner, ih inside, rfl⟩
    · obtain ⟨last, inside, rfl⟩ := Option.map_eq_some_iff.1 made
      exact Option.map_eq_some_iff.2 ⟨last, ih inside, rfl⟩
    · cases made

theorem put?_lenient {item : Toml} {path : List String} :
    ∀ {members written : Members}, put? .strict item path members = some written →
      put? .lenient item path members = some written := by
  induction path with
  | nil =>
    intro members written made
    simp only [put?, reduceCtorEq] at made
  | cons key path ih =>
    intro members written made
    cases path with
    | nil => exact made
    | cons next path =>
      refine alter?_mono (fun old d made => ?_) made
      split at made
      · obtain ⟨inner, inside, rfl⟩ := Option.map_eq_some_iff.1 made
        exact Option.map_eq_some_iff.2 ⟨inner, ih inside, rfl⟩
      · obtain ⟨inner, inside, rfl⟩ := Option.map_eq_some_iff.1 made
        exact Option.map_eq_some_iff.2 ⟨inner, ih inside, rfl⟩
      -- The one place where the dialects differ, and only the strict one may refuse.
      · split at made
        · cases made
        · obtain ⟨inner, inside, rfl⟩ := Option.map_eq_some_iff.1 made
          have allowed : ¬(decide (path = []) && !Dialect.lenient.endsInImplied) = true := by
            simp [Dialect.lenient]
          rw [if_neg allowed]
          exact Option.map_eq_some_iff.2 ⟨inner, ih inside, rfl⟩
      · split at made
        · cases made
        · rename_i longer
          obtain ⟨last, inside, rfl⟩ := Option.map_eq_some_iff.1 made
          rw [if_neg longer]
          exact Option.map_eq_some_iff.2 ⟨last, ih inside, rfl⟩
      · cases made

end Draft

theorem readMember?_lenient {header : List String} {members written : Draft.Members}
    {cs rest : List Char} (h : readMember? .strict header members cs = some (written, rest)) :
    readMember? .lenient header members cs = some (written, rest) := by
  obtain ⟨⟨path, cs₁⟩, key, h⟩ := Option.bind_eq_some_iff.1 h
  obtain ⟨cs₂, mark, h⟩ := Option.bind_eq_some_iff.1 h
  obtain ⟨⟨item, cs₃⟩, value, h⟩ := Option.bind_eq_some_iff.1 h
  obtain ⟨put, made, h⟩ := Option.bind_eq_some_iff.1 h
  have made := Draft.within?_mono (fun _ _ => Draft.put?_lenient) made
  unfold readMember?
  simp only [key, mark, value, made, h, Option.bind_eq_bind, Option.bind_some]

theorem readLines?_lenient {steps : Nat} :
    ∀ {header : List String} {members written : Draft.Members} {cs : List Char},
      readLines? .strict steps header members cs = some written →
        readLines? .lenient steps header members cs = some written := by
  induction steps with
  | zero =>
    intro header members written cs h
    simp only [readLines?, reduceCtorEq] at h
  | succ steps ih =>
    intro header members written cs h
    rw [readLines?] at h ⊢
    split at h
    · exact h
    · obtain ⟨⟨path, cs₁⟩, key, h⟩ := Option.bind_eq_some_iff.1 h
      obtain ⟨opened, made, h⟩ := Option.bind_eq_some_iff.1 h
      obtain ⟨cs₂, line, h⟩ := Option.bind_eq_some_iff.1 h
      simp only [key, made, line, ih h, Option.bind_eq_bind, Option.bind_some]
    · obtain ⟨⟨path, cs₁⟩, key, h⟩ := Option.bind_eq_some_iff.1 h
      obtain ⟨opened, made, h⟩ := Option.bind_eq_some_iff.1 h
      obtain ⟨cs₂, line, h⟩ := Option.bind_eq_some_iff.1 h
      simp only [key, made, line, ih h, Option.bind_eq_bind, Option.bind_some]
    · obtain ⟨⟨put, cs₁⟩, made, h⟩ := Option.bind_eq_some_iff.1 h
      obtain ⟨cs₂, line, h⟩ := Option.bind_eq_some_iff.1 h
      simp only [readMember?_lenient made, line, ih h, Option.bind_eq_bind, Option.bind_some]

theorem parse?_lenient_of_strict {text : String} {document : Table}
    (h : parse? .strict text = some document) : parse? .lenient text = some document := by
  obtain ⟨members, read, rfl⟩ := Option.map_eq_some_iff.1 h
  exact Option.map_eq_some_iff.2 ⟨members, readLines?_lenient read, rfl⟩

theorem readLines?_mark {d : Dialect} {steps : Nat} {header : List String}
    {members : Draft.Members} {cs : List Char} :
    readLines? d steps header members ('\uFEFF' :: cs) = none := by
  cases steps with
  | zero => rfl
  | succ steps =>
    have key : readKey? ('\uFEFF' :: cs) = none := rfl
    have blank : skipBlank ('\uFEFF' :: cs) = '\uFEFF' :: cs := rfl
    have member : readMember? d header members ('\uFEFF' :: cs) = none := by
      rw [readMember?, key]
      rfl
    rw [readLines?, blank]
    change (readMember? d header members ('\uFEFF' :: cs)).bind _ = none
    rw [member, Option.bind_none]

theorem withoutMark_of_parse? {d : Dialect} {text : String} {document : Table}
    (h : parse? d text = some document) : withoutMark (withoutMark text) = withoutMark text := by
  obtain ⟨members, read, -⟩ := Option.map_eq_some_iff.1 h
  generalize withoutMark text = text at read ⊢
  unfold withoutMark
  split
  · rename_i cs marked
    rw [marked, readLines?_mark] at read
    cases read
  · rfl

end PolicyValues.Toml
