import Mathlib.Data.List.TakeWhile
import PolicyValues.Name.HostName
import PolicyValues.Proofs.Text.Digits

/-!
Which texts are hosts: labels between dots, behind a wildcard or none and before a last dot or none.
The check of a host passes exactly these.
-/
namespace PolicyValues.HostName
open Text

theorem eq_of_splitLabel_last {body label : List Char} (h : splitLabel body = (label, none)) :
    body = label := by
  unfold splitLabel at h
  split at h
  · simp only [Prod.mk.injEq, reduceCtorEq, and_false] at h
  · exact (Prod.mk.inj h).1

theorem append_of_splitLabel_more {body label rest : List Char}
    (h : splitLabel body = (label, some rest)) : body = label ++ '.' :: rest := by
  unfold splitLabel at h
  split at h
  · rename_i found
    obtain ⟨rfl, behind⟩ := Prod.mk.inj h
    rw [append_of_splitFirst? found, Option.some.inj behind]
  · simp only [Prod.mk.injEq, reduceCtorEq, and_false] at h

theorem checkLabels_last {body label : List Char} (h : splitLabel body = (label, none))
    (tail : List Char) : checkLabels body tail = checkLabel label (body ++ tail) true := by
  rw [checkLabels]
  split <;> simp_all

theorem checkLabels_more {body label rest : List Char} (h : splitLabel body = (label, some rest))
    (tail : List Char) :
    checkLabels body tail = (do checkLabel label (body ++ tail) false; checkLabels rest tail) := by
  rw [checkLabels]
  split <;> simp_all

/-- Letters, digits and hyphens, without a hyphen at either end. -/
structure Label where
  chars : List Char
  ne_nil : chars ≠ []
  proper : ∀ c ∈ chars, c.isAlphanum = true ∨ c = '-'
  start : chars.head? ≠ some '-'
  finish : chars.getLast? ≠ some '-'

theorem isLabelChar_iff {c : Char} : isLabelChar c = true ↔ c.isAlphanum = true ∨ c = '-' := by
  rw [isLabelChar, Bool.or_eq_true, beq_iff_eq]

theorem proper_of_all {cs : List Char} (h : cs.all isLabelChar = true) :
    ∀ c ∈ cs, c.isAlphanum = true ∨ c = '-' :=
  fun c mem => isLabelChar_iff.1 (List.all_eq_true.1 h c mem)

namespace Label

def Numeric (label : Label) : Prop := label.chars.head?.any Char.isDigit = true

theorem not_mem_chars {mark : Char} (h : isLabelChar mark = false) (label : Label) :
    mark ∉ label.chars := by
  intro mem
  exact Bool.eq_false_iff.1 h (isLabelChar_iff.2 (label.proper mark mem))

theorem dropWhile_chars (label : Label) : label.chars.dropWhile isLabelChar = [] := by
  rw [List.dropWhile_eq_nil_iff]
  exact fun c mem => isLabelChar_iff.2 (label.proper c mem)

end Label

theorem checkLabel_eq_ok_iff {label here : List Char} {last : Bool} :
    checkLabel label here last = .ok () ↔
      ∃ l : Label, l.chars = label ∧ (last = true → ¬ l.Numeric) := by
  constructor
  · intro h
    unfold checkLabel at h
    split at h
    · simp only [reduceCtorEq] at h
    · rename_i c more proper
      rw [List.dropWhile_eq_nil_iff] at proper
      split at h
      · simp only [reduceCtorEq] at h
      rename_i start
      split at h
      · simp only [reduceCtorEq] at h
      rename_i finish
      split at h
      · simp only [reduceCtorEq] at h
      rename_i digit
      refine ⟨⟨c :: more, List.cons_ne_nil c more, fun d mem => isLabelChar_iff.1 (proper d mem),
        ?_, finish⟩, rfl, fun top numeric => digit ?_⟩
      · rw [List.head?_cons, ne_eq, Option.some.injEq]
        exact start
      · rw [top, Bool.true_and]
        exact numeric
    · simp only [reduceCtorEq] at h
  · rintro ⟨l, rfl, top⟩
    have proper := l.dropWhile_chars
    obtain ⟨_ | ⟨c, more⟩, ne_nil, _, start, finish⟩ := l
    · exact absurd rfl ne_nil
    · have digit : ¬(last && c.isDigit) = true := by
        rw [Bool.and_eq_true]
        rintro ⟨rfl, numeric⟩
        exact top rfl numeric
      rw [List.head?_cons, ne_eq, Option.some.injEq] at start
      simp only [checkLabel, proper, if_neg start, if_neg finish, if_neg digit]

def dotted (labels : List Label) : List Char := ['.'].intercalate (labels.map Label.chars)

theorem dotted_cons_cons (l l' : Label) (labels : List Label) :
    dotted (l :: l' :: labels) = l.chars ++ '.' :: dotted (l' :: labels) := by
  rw [dotted, List.map_cons, List.map_cons, List.intercalate_cons_cons, List.append_assoc,
    List.singleton_append]
  rfl

theorem dotted_singleton (l : Label) : dotted [l] = l.chars := List.intercalate_singleton

theorem splitLabel_dotted (l : Label) (labels : List Label) :
    splitLabel (dotted (l :: labels)) = (l.chars,
      if labels = [] then none else some (dotted labels)) := by
  have inside : '.' ∉ l.chars := l.not_mem_chars rfl
  cases labels with
  | nil => rw [dotted_singleton, splitLabel, splitFirst?_eq_none_iff.2 inside, if_pos rfl]
  | cons l' labels =>
    rw [dotted_cons_cons, splitLabel, splitFirst?_append inside, if_neg (List.cons_ne_nil _ _)]

def Row (labels : List Label) : Prop := labels ≠ [] ∧ ∀ l ∈ labels.getLast?, ¬ l.Numeric

theorem row_singleton {l : Label} : Row [l] ↔ ¬ l.Numeric := by
  simp only [Row, ne_eq, List.cons_ne_self, not_false_eq_true, List.getLast?_singleton,
    Option.mem_def, Option.some.injEq, forall_eq', true_and]

theorem row_cons_cons {l l' : Label} {labels : List Label} :
    Row (l :: l' :: labels) ↔ Row (l' :: labels) := by
  simp only [Row, ne_eq, reduceCtorEq, not_false_eq_true, List.getLast?_cons_cons, true_and]

theorem Row.cons {labels : List Label} (h : Row labels) (l : Label) : Row (l :: labels) := by
  obtain ⟨l', labels, rfl⟩ := List.exists_cons_of_ne_nil h.1
  exact row_cons_cons.2 h

theorem checkLabels_eq_ok_iff {body tail : List Char} :
    checkLabels body tail = .ok () ↔ ∃ labels, Row labels ∧ dotted labels = body := by
  constructor
  · intro h
    induction body using checkLabels.induct with
    | case1 body label split =>
      rw [checkLabels_last split] at h
      obtain ⟨l, rfl, top⟩ := checkLabel_eq_ok_iff.1 h
      refine ⟨[l], row_singleton.2 (top rfl), ?_⟩
      rw [dotted_singleton, eq_of_splitLabel_last split]
    | case2 body label rest split ih =>
      rw [checkLabels_more split] at h
      obtain ⟨_, first, more⟩ := bind_eq_ok_iff.1 h
      obtain ⟨l, rfl, -⟩ := checkLabel_eq_ok_iff.1 first
      obtain ⟨labels, row, rfl⟩ := ih more
      obtain ⟨l', labels, rfl⟩ := List.exists_cons_of_ne_nil row.1
      refine ⟨l :: l' :: labels, row.cons l, ?_⟩
      rw [dotted_cons_cons, append_of_splitLabel_more split]
  · rintro ⟨labels, row, rfl⟩
    induction labels with
    | nil => exact absurd rfl row.1
    | cons l labels ih =>
      have split := splitLabel_dotted l labels
      cases labels with
      | nil =>
        rw [checkLabels_last split]
        exact checkLabel_eq_ok_iff.2 ⟨l, rfl, fun _ => row_singleton.1 row⟩
      | cons l' labels =>
        rw [checkLabels_more split]
        have first (here : List Char) : checkLabel l.chars here false = .ok () :=
          checkLabel_eq_ok_iff.2 ⟨l, rfl, fun top => absurd top Bool.false_ne_true⟩
        exact bind_eq_ok_iff.2 ⟨(), first _, ih (row_cons_cons.1 row)⟩

/-! ## Hosts -/

def isBodyChar (c : Char) : Bool := isLabelChar c || c == '.'

theorem isBodyChar_of_mem_dotted {labels : List Label} :
    ∀ c ∈ dotted labels, isBodyChar c = true := by
  have label (l : Label) : ∀ c ∈ l.chars, isBodyChar c = true := fun c mem => by
    rw [isBodyChar, isLabelChar_iff.2 (l.proper c mem), Bool.true_or]
  induction labels with
  | nil => exact List.forall_mem_nil _
  | cons l labels ih =>
    cases labels with
    | nil =>
      rw [dotted_singleton]
      exact label l
    | cons l' labels =>
      rw [dotted_cons_cons, List.forall_mem_append, List.forall_mem_cons]
      exact ⟨label l, rfl, ih⟩

theorem dotted_ne_nil {labels : List Label} (h : labels ≠ []) : dotted labels ≠ [] := by
  obtain ⟨l, labels, rfl⟩ := List.exists_cons_of_ne_nil h
  cases labels with
  | nil =>
    rw [dotted_singleton]
    exact l.ne_nil
  | cons l' labels =>
    rw [dotted_cons_cons]
    exact List.append_ne_nil_of_left_ne_nil l.ne_nil _

theorem getLast?_dotted_ne (labels : List Label) : (dotted labels).getLast? ≠ some '.' := by
  induction labels with
  | nil => exact nofun
  | cons l labels ih =>
    cases labels with
    | nil =>
      rw [dotted_singleton]
      intro last
      exact l.not_mem_chars rfl (List.mem_of_getLast? last)
    | cons l' labels =>
      have some_char := dotted_ne_nil (List.cons_ne_nil l' labels)
      rw [List.getLast?_eq_some_getLast some_char] at ih
      rwa [dotted_cons_cons, List.getLast?_append, List.getLast?_cons_of_ne_nil some_char,
        List.getLast?_eq_some_getLast some_char, Option.some_or]

structure WrittenHost where
  wildcard : Bool
  labels : List Label
  row : Row labels
  finalDot : Bool

namespace WrittenHost

def frontChars (w : WrittenHost) : List Char := if w.wildcard then ['*', '.'] else []

def dotChars (w : WrittenHost) : List Char := if w.finalDot then ['.'] else []

def bodyChars (w : WrittenHost) : List Char := dotted w.labels ++ w.dotChars

def chars (w : WrittenHost) : List Char := w.frontChars ++ w.bodyChars

theorem isBodyChar_of_mem_bodyChars {w : WrittenHost} :
    ∀ c ∈ w.bodyChars, isBodyChar c = true := by
  refine List.forall_mem_append.2 ⟨isBodyChar_of_mem_dotted, ?_⟩
  unfold dotChars
  split
  · exact List.forall_mem_singleton.2 rfl
  · exact List.forall_mem_nil _

theorem isBodyChar_of_mem_chars {w : WrittenHost} :
    ∀ c ∈ w.chars, (isBodyChar c || c == '*') = true := by
  refine List.forall_mem_append.2 ⟨?_, fun c mem => ?_⟩
  · unfold frontChars
    split
    · exact List.all_eq_true.1 rfl
    · exact List.forall_mem_nil _
  · rw [isBodyChar_of_mem_bodyChars c mem, Bool.true_or]

theorem withoutWildcard_chars (w : WrittenHost) : withoutWildcard w.chars = w.bodyChars := by
  unfold chars frontChars
  split
  · rfl
  · rw [List.nil_append]
    unfold withoutWildcard
    split
    · rename_i starred
      have star := isBodyChar_of_mem_bodyChars '*' (starred ▸ List.mem_cons_self)
      exact absurd star (by decide)
    · rfl

theorem splitFinalDot_chars (w : WrittenHost) :
    splitFinalDot w.bodyChars = (dotted w.labels, w.dotChars) := by
  unfold bodyChars dotChars
  split
  · rw [splitFinalDot, List.getLast?_concat, if_pos rfl, List.dropLast_concat]
  · rw [List.append_nil, splitFinalDot, if_neg (getLast?_dotted_ne w.labels)]

end WrittenHost

theorem exists_front_of_withoutWildcard (host : List Char) :
    ∃ wildcard : Bool, host = (if wildcard then ['*', '.'] else []) ++ withoutWildcard host := by
  unfold withoutWildcard
  split
  · exact ⟨true, rfl⟩
  · exact ⟨false, rfl⟩

theorem exists_dot_of_splitFinalDot (cs : List Char) :
    ∃ finalDot : Bool, cs = (splitFinalDot cs).1 ++ if finalDot then ['.'] else [] := by
  unfold splitFinalDot
  split
  · rename_i dot
    obtain ⟨front, rfl⟩ := List.getLast?_eq_some_iff.1 dot
    rw [List.dropLast_concat]
    exact ⟨true, rfl⟩
  · exact ⟨false, (List.append_nil cs).symm⟩

theorem checkHost_eq_ok_iff {host tail : List Char} :
    checkHost host tail = .ok () ↔ ∃ w : WrittenHost, w.chars = host := by
  constructor
  · intro h
    obtain ⟨wildcard, front⟩ := exists_front_of_withoutWildcard host
    obtain ⟨finalDot, body⟩ := exists_dot_of_splitFinalDot (withoutWildcard host)
    unfold checkHost at h
    simp only at h
    split at h
    · simp only [reduceCtorEq] at h
    · obtain ⟨labels, row, same⟩ := checkLabels_eq_ok_iff.1 h
      rw [front, body, ← same]
      exact ⟨⟨wildcard, labels, row, finalDot⟩, rfl⟩
  · rintro ⟨w, rfl⟩
    rw [checkHost, w.withoutWildcard_chars, w.splitFinalDot_chars]
    simp only [if_neg (dotted_ne_nil w.row.1)]
    exact checkLabels_eq_ok_iff.2 ⟨w.labels, w.row, rfl⟩

theorem checkHost_chars (w : WrittenHost) (tail : List Char) : checkHost w.chars tail = .ok () :=
  checkHost_eq_ok_iff.2 ⟨w, rfl⟩

end PolicyValues.HostName
