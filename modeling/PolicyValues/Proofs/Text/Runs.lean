import PolicyValues.Text.Basic

/-! Where the longest front part of a text ends, and where a text is split at a mark. -/
namespace PolicyValues.Text

def Stops (p : Char → Bool) (cs : List Char) : Prop := cs.head?.any p = false

@[simp] theorem stops_nil (p : Char → Bool) : Stops p [] := rfl

@[simp] theorem stops_cons {p : Char → Bool} {c : Char} {cs : List Char} :
    Stops p (c :: cs) ↔ p c = false := Iff.rfl

theorem Stops.mono {p q : Char → Bool} {cs : List Char} (h : Stops q cs)
    (weaker : ∀ c, p c = true → q c = true) : Stops p cs := by
  cases cs with
  | nil => exact stops_nil p
  | cons c cs =>
    rw [stops_cons, Bool.eq_false_iff]
    intro hp
    exact Bool.eq_false_iff.1 h (weaker c hp)

theorem takeWhile_append_of_stops {p : Char → Bool} {run rest : List Char}
    (hrun : ∀ c ∈ run, p c = true) (hrest : Stops p rest) : (run ++ rest).takeWhile p = run := by
  rw [List.takeWhile_append_of_pos hrun]
  cases rest with
  | nil => simp only [List.takeWhile_nil, List.append_nil]
  | cons c cs => rw [List.takeWhile_cons_of_neg (by simp_all), List.append_nil]

theorem dropWhile_append_of_stops {p : Char → Bool} {run rest : List Char}
    (hrun : ∀ c ∈ run, p c = true) (hrest : Stops p rest) : (run ++ rest).dropWhile p = rest := by
  rw [List.dropWhile_append_of_pos hrun]
  cases rest with
  | nil => rfl
  | cons c cs => rw [List.dropWhile_cons_of_neg (by simp_all)]

theorem head?_dropWhile_append_ne {p : Char → Bool} {mark : Char} {run rest : List Char}
    (hrun : mark ∉ run) (stops : Stops p rest) (hrest : rest.head? ≠ some mark) :
    ((run ++ rest).dropWhile p).head? ≠ some mark := by
  induction run with
  | nil =>
    rwa [dropWhile_append_of_stops (by simp) stops]
  | cons c cs ih =>
    simp only [List.mem_cons, not_or] at hrun
    rw [List.cons_append, List.dropWhile_cons]
    split
    · exact ih hrun.2
    · simp only [List.head?_cons, ne_eq, Option.some.injEq]
      exact Ne.symm hrun.1

theorem takeWhile_of_stops {p : Char → Bool} {cs : List Char} (h : Stops p cs) :
    cs.takeWhile p = [] := by
  cases cs with
  | nil => rfl
  | cons c cs => exact List.takeWhile_cons_of_neg (Bool.eq_false_iff.1 h)

theorem trimRight_append_of_stops {p : Char → Bool} (cs : List Char) {c : Char}
    (h : p c = false) :
    trimRight p (cs ++ [c]) = cs ++ [c] := by
  rw [trimRight, List.reverse_append, List.reverse_singleton, List.singleton_append,
    List.dropWhile_cons_of_neg (Bool.eq_false_iff.1 h), List.reverse_cons, List.reverse_reverse]

theorem toList_around {mark : String} (c : Char) (h : mark.toList = [c]) (before after : String) :
    (before ++ mark ++ after).toList = before.toList ++ c :: after.toList := by
  rw [String.toList_append, String.toList_append, h, List.append_assoc, List.singleton_append]

theorem splitFirst?_append {mark : Char} {before : List Char} (h : mark ∉ before)
    (after : List Char) : splitFirst? mark (before ++ mark :: after) = some (before, after) := by
  induction before with
  | nil => simp only [List.nil_append, splitFirst?, if_true]
  | cons c cs ih =>
    simp only [List.mem_cons, not_or] at h
    simp only [List.cons_append, splitFirst?, if_neg (Ne.symm h.1), ih h.2, Option.map_some]

theorem splitFirst?_eq_none_iff {mark : Char} {cs : List Char} :
    splitFirst? mark cs = none ↔ mark ∉ cs := by
  induction cs with
  | nil => simp only [splitFirst?, List.not_mem_nil, not_false_eq_true]
  | cons c cs ih =>
    by_cases hc : c = mark
    · simp only [splitFirst?, hc, if_true, reduceCtorEq, List.mem_cons, true_or, not_true_eq_false]
    · simp only [splitFirst?, hc, if_false, Option.map_eq_none_iff, ih, List.mem_cons, not_or,
        Ne.symm hc, not_false_eq_true, true_and]

theorem not_mem_of_splitFirst? {mark : Char} {cs before after : List Char}
    (h : splitFirst? mark cs = some (before, after)) : mark ∉ before := by
  induction cs generalizing before with
  | nil => simp only [splitFirst?, reduceCtorEq] at h
  | cons c cs ih =>
    by_cases hc : c = mark
    · simp only [splitFirst?, hc, if_true, Option.some.injEq, Prod.mk.injEq] at h
      simp only [← h.1, List.not_mem_nil, not_false_eq_true]
    · simp only [splitFirst?, hc, if_false, Option.map_eq_some_iff, Prod.mk.injEq, Prod.exists] at h
      obtain ⟨b, a, hs, rfl, rfl⟩ := h
      simp only [List.mem_cons, not_or]
      exact ⟨Ne.symm hc, ih hs⟩

end PolicyValues.Text
