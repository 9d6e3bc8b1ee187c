import PolicyValues.Proofs.Name.RoundTrip
import PolicyValues.Proofs.Text.Endings

/-!
Hosts are matched by their labels. A text ends in a dot and other labels, up to case, exactly if
labels of its own stand before labels that agree with those; the cut before the end never goes
through a character, whatever the text is.
-/
namespace PolicyValues.HostName
open Text

/-! ## Cutting the host -/

theorem matchesHost?_of_wildcard {n : HostName} {ending : List Char}
    (own : trimDots n.host = '*' :: ending) {host : String} {front back : List Char}
    (some_front : front ≠ []) (split : trimDots host.toList = front ++ back)
    (same : EqFold back ending) :
    n.matchesHost? host = some (front.getLast? != some '.') := by
  have below : EndsBelow (front ++ back) ending :=
    endsBelow_iff.2 ⟨front, back, some_front, rfl, same⟩
  simp only [matchesHost?, own, split, if_pos below, frontAt?_of_eqFold same, Option.map_some]

theorem matchesHost?_of_not_endsBelow {n : HostName} {ending : List Char}
    (own : trimDots n.host = '*' :: ending) {host : String}
    (h : ¬ EndsBelow (trimDots host.toList) ending) : n.matchesHost? host = some false := by
  simp only [matchesHost?, own, if_neg h]

theorem matchesHost?_of_plain {n : HostName} (own : (trimDots n.host).head? ≠ some '*')
    (host : String) :
    n.matchesHost? host = some (decide (EqFold (trimDots n.host) (trimDots host.toList))) := by
  unfold matchesHost?
  split
  · rename_i starred
    rw [starred] at own
    exact absurd rfl own
  · rfl

theorem matchesHost?_iff_ends {n : HostName} {ending : List Char}
    (own : trimDots n.host = '*' :: ending) {host : String} :
    n.matchesHost? host = some true ↔ ∃ front back, front ≠ [] ∧ front.getLast? ≠ some '.' ∧
      trimDots host.toList = front ++ back ∧ EqFold back ending := by
  constructor
  · intro h
    by_cases below : EndsBelow (trimDots host.toList) ending
    · obtain ⟨front, back, some_front, split, same⟩ := endsBelow_iff.1 below
      rw [matchesHost?_of_wildcard own some_front split same, Option.some.injEq, bne_iff_ne] at h
      exact ⟨front, back, some_front, h, split, same⟩
    · rw [matchesHost?_of_not_endsBelow own below, Option.some.injEq] at h
      exact absurd h Bool.false_ne_true
  · rintro ⟨front, back, some_front, last, split, same⟩
    rw [matchesHost?_of_wildcard own some_front split same, bne_iff_ne.2 last]

theorem exists_matchesHost? (n : HostName) (host : String) :
    ∃ answer, n.matchesHost? host = some answer := by
  by_cases starred : (trimDots n.host).head? = some '*'
  · obtain ⟨ending, own⟩ := List.head?_eq_some_iff.1 starred
    by_cases below : EndsBelow (trimDots host.toList) ending
    · obtain ⟨front, back, some_front, split, same⟩ := endsBelow_iff.1 below
      exact ⟨_, matchesHost?_of_wildcard own some_front split same⟩
    · exact ⟨false, matchesHost?_of_not_endsBelow own below⟩
  · exact ⟨_, matchesHost?_of_plain starred host⟩

/-! ## Dots at the end -/

theorem trimDots_of_getLast? {cs : List Char} (h : cs.getLast? ≠ some '.') : trimDots cs = cs := by
  rcases List.eq_nil_or_concat cs with rfl | ⟨front, c, rfl⟩
  · rfl
  · rw [List.concat_eq_append, List.getLast?_concat, ne_eq, Option.some.injEq] at h
    rw [List.concat_eq_append]
    exact trimRight_append_of_stops front (beq_eq_false_iff_ne.2 h)

theorem trimDots_append_dot (cs : List Char) : trimDots (cs ++ ['.']) = trimDots cs := by
  rw [trimDots, trimRight, List.reverse_append, List.reverse_singleton, List.singleton_append,
    List.dropWhile_cons_of_pos rfl]
  rfl

theorem WrittenHost.trimDots_chars (w : WrittenHost) :
    trimDots w.chars = w.frontChars ++ dotted w.labels := by
  have bare : trimDots (w.frontChars ++ dotted w.labels) = w.frontChars ++ dotted w.labels := by
    have some_char := dotted_ne_nil w.row.1
    have last := getLast?_dotted_ne w.labels
    refine trimDots_of_getLast? ?_
    rw [List.getLast?_eq_some_getLast some_char] at last
    rwa [List.getLast?_append, List.getLast?_eq_some_getLast some_char, Option.some_or]
  rw [chars, bodyChars, ← List.append_assoc, dotChars]
  split
  · rw [trimDots_append_dot, bare]
  · rw [List.append_nil, bare]

/-! ## Labels up to case -/

def loweredLabels (labels : List Label) : List (List Char) := labels.map fun l => lower l.chars

theorem loweredLabels_cons (l : Label) (labels : List Label) :
    loweredLabels (l :: labels) = lower l.chars :: loweredLabels labels := rfl

theorem dot_not_mem_loweredLabels {labels : List Label} :
    ∀ cs ∈ loweredLabels labels, '.' ∉ cs := by
  intro cs mem
  obtain ⟨l, -, rfl⟩ := List.mem_map.1 mem
  rw [mem_lower_iff rfl]
  exact l.not_mem_chars rfl

theorem lower_dotted (labels : List Label) :
    lower (dotted labels) = ['.'].intercalate (loweredLabels labels) := by
  induction labels with
  | nil => rfl
  | cons l labels ih =>
    cases labels with
    | nil => rw [dotted_singleton, loweredLabels, List.map_singleton, List.intercalate_singleton]
    | cons l' labels =>
      rw [dotted_cons_cons, lower_append, lower_cons, ih, loweredLabels_cons, loweredLabels_cons,
        loweredLabels_cons, List.intercalate_cons_cons, List.append_assoc, List.singleton_append]
      rfl

theorem splitOn_dotted {labels : List Label} (h : labels ≠ []) :
    (dotted labels).splitOn '.' = labels.map Label.chars := by
  refine List.splitOn_intercalate '.' ?_ (by rwa [ne_eq, List.map_eq_nil_iff])
  intro cs mem
  obtain ⟨l, -, rfl⟩ := List.mem_map.1 mem
  exact l.not_mem_chars rfl

theorem eqFold_dotted_iff {as bs : List Label} (some_a : as ≠ []) (some_b : bs ≠ []) :
    EqFold (dotted as) (dotted bs) ↔ loweredLabels as = loweredLabels bs := by
  have lowered {labels : List Label} (h : labels ≠ []) :
      (lower (dotted labels)).splitOn '.' = loweredLabels labels := by
    rw [lower_dotted]
    exact List.splitOn_intercalate '.' dot_not_mem_loweredLabels
      (by rwa [loweredLabels, ne_eq, List.map_eq_nil_iff])
  constructor
  · intro same
    have folded : lower (dotted as) = lower (dotted bs) := same
    rw [← lowered some_a, ← lowered some_b, folded]
  · intro same
    rw [EqFold, lower_dotted, lower_dotted, same]

theorem dotted_append {as bs : List Label} (some_a : as ≠ []) (some_b : bs ≠ []) :
    dotted (as ++ bs) = dotted as ++ '.' :: dotted bs := by
  induction as with
  | nil => exact absurd rfl some_a
  | cons l as ih =>
    cases as with
    | nil =>
      obtain ⟨l', bs, rfl⟩ := List.exists_cons_of_ne_nil some_b
      rw [dotted_singleton, List.singleton_append, dotted_cons_cons]
    | cons l' as =>
      calc dotted (l :: (l' :: as ++ bs)) = l.chars ++ '.' :: dotted (l' :: as ++ bs) :=
            dotted_cons_cons l l' (as ++ bs)
        _ = l.chars ++ '.' :: (dotted (l' :: as) ++ '.' :: dotted bs) := by
            rw [ih (List.cons_ne_nil l' as)]
        _ = dotted (l :: l' :: as) ++ '.' :: dotted bs := by
            rw [dotted_cons_cons, List.append_assoc, List.cons_append]

theorem exists_append_of_dotted {labels : List Label} {front back : List Char}
    (some_label : labels ≠ []) (h : dotted labels = front ++ '.' :: back) :
    ∃ before after, before ≠ [] ∧ after ≠ [] ∧ labels = before ++ after ∧
      dotted before = front ∧ dotted after = back := by
  have parts : labels.map Label.chars = front.splitOn '.' ++ back.splitOn '.' := by
    rw [← splitOn_dotted some_label, h, List.splitOn_append_cons_self]
  obtain ⟨before, after, rfl, fronts, backs⟩ := List.map_eq_append_iff.1 parts
  refine ⟨before, after, ?_, ?_, rfl, ?_, ?_⟩
  · rintro rfl
    exact List.splitOn_ne_nil '.' front fronts.symm
  · rintro rfl
    exact List.splitOn_ne_nil '.' back backs.symm
  · rw [dotted, fronts, List.intercalate_splitOn]
  · rw [dotted, backs, List.intercalate_splitOn]

/-! ## Matching -/

/-- The labels agree up to case, behind one or more further labels if there is a wildcard. -/
def WrittenHost.Names (w v : WrittenHost) : Prop :=
  if w.wildcard then ∃ before after, before ≠ [] ∧ v.labels = before ++ after ∧
    loweredLabels after = loweredLabels w.labels
  else loweredLabels v.labels = loweredLabels w.labels

theorem WrittenHost.trimDots_of_bare {w : WrittenHost} (bare : w.wildcard = false) :
    trimDots w.chars = dotted w.labels := by
  rw [w.trimDots_chars, frontChars, bare, if_neg Bool.false_ne_true, List.nil_append]

theorem ends_dotted_iff {as bs : List Label} (some_a : as ≠ []) (some_b : bs ≠ []) :
    (∃ front back, front ≠ [] ∧ front.getLast? ≠ some '.' ∧ dotted as = front ++ back ∧
      EqFold back ('.' :: dotted bs)) ↔
    ∃ before after, before ≠ [] ∧ as = before ++ after ∧
      loweredLabels after = loweredLabels bs := by
  constructor
  · rintro ⟨front, back, -, -, split, same⟩
    obtain ⟨dot, rest, rfl, lowered, folded⟩ := List.map_eq_cons_iff.1 same
    rw [toLower_eq_iff rfl] at lowered
    subst lowered
    obtain ⟨before, after, some_before, some_after, rfl, -, rfl⟩ :=
      exists_append_of_dotted some_a split
    exact ⟨before, after, some_before, rfl, (eqFold_dotted_iff some_after some_b).1 folded⟩
  · rintro ⟨before, after, some_before, rfl, same⟩
    have some_after : after ≠ [] := by
      rintro rfl
      exact some_b (List.map_eq_nil_iff.1 same.symm)
    have folded : lower (dotted after) = lower (dotted bs) :=
      (eqFold_dotted_iff some_after some_b).2 same
    refine ⟨dotted before, '.' :: dotted after, dotted_ne_nil some_before,
      getLast?_dotted_ne before, dotted_append some_before some_after, ?_⟩
    rw [EqFold, lower_cons, lower_cons, folded]

theorem matchesHost?_iff_names {n : HostName} {w v : WrittenHost} (written : n.host = w.chars)
    (bare : v.wildcard = false) {host : String} (same : host.toList = v.chars) :
    n.matchesHost? host = some true ↔ w.Names v := by
  have candidate : trimDots host.toList = dotted v.labels := by
    rw [same, WrittenHost.trimDots_of_bare bare]
  cases starred : w.wildcard with
  | true =>
    have own : trimDots n.host = '*' :: '.' :: dotted w.labels := by
      rw [written, w.trimDots_chars, WrittenHost.frontChars, if_pos starred]
      rfl
    rw [matchesHost?_iff_ends own, candidate, ends_dotted_iff v.row.1 w.row.1, WrittenHost.Names,
      if_pos starred]
  | false =>
    have own : trimDots n.host = dotted w.labels := by
      rw [written, WrittenHost.trimDots_of_bare starred]
    have plain : (trimDots n.host).head? ≠ some '*' := by
      intro star
      rw [own] at star
      exact absurd (isBodyChar_of_mem_dotted '*' (List.mem_of_mem_head? star)) (by decide)
    rw [matchesHost?_of_plain plain, own, candidate, Option.some.injEq, decide_eq_true_iff,
      eqFold_dotted_iff w.row.1 v.row.1, WrittenHost.Names, starred, if_neg Bool.false_ne_true]
    exact eq_comm

theorem isWildcard_of_written {n : HostName} {w : WrittenHost} (written : n.host = w.chars) :
    n.isWildcard = w.wildcard := by
  rw [isWildcard, written, WrittenHost.chars, WrittenHost.frontChars]
  cases w.wildcard with
  | true => rfl
  | false =>
    rw [if_neg Bool.false_ne_true, List.nil_append, Bool.eq_false_iff]
    intro starred
    have star := (List.isPrefixOf_iff_prefix.1 starred).subset List.mem_cons_self
    exact absurd (WrittenHost.isBodyChar_of_mem_bodyChars '*' star) (by decide)

/-- A name matches a host exactly if their labels agree up to case, behind further labels of the
host where the name begins with a wildcard. No text at all is cut inside a character. -/
theorem matches_by_labels {text : String} {n : HostName} (parsed : parse text = .ok n) :
    (∀ host : String, ∃ answer, n.matchesHost? host = some answer) ∧
    (∃ w : WrittenHost, n.host = w.chars) ∧
    ∀ w : WrittenHost, n.host = w.chars → n.isWildcard = w.wildcard ∧
      ∀ (host : String) (v : WrittenHost), host.toList = v.chars → v.wildcard = false →
        (n.matchesHost? host = some true ↔ w.Names v) := by
  obtain ⟨w, written, -⟩ := parse_eq_ok_iff.1 parsed
  refine ⟨exists_matchesHost? n, ⟨w, written⟩, fun w written => ⟨isWildcard_of_written written, ?_⟩⟩
  intro host v same bare
  exact matchesHost?_iff_names written bare same

theorem wildcard_matches_below :
    let n : HostName := ⟨"*.Example.com".toList, none⟩
    parse "*.Example.com" = .ok n ∧ n.matchesHost? "a.b.EXAMPLE.com." = some true ∧
      ∃ answer, n.matchesHost? "é.example.com" = some answer := by
  intro n
  let com : Label := ⟨['c', 'o', 'm'], by decide, proper_of_all rfl, by decide, by decide⟩
  let top : Row [com] := row_singleton.2 Bool.false_ne_true
  let mixed : Label :=
    ⟨['E', 'x', 'a', 'm', 'p', 'l', 'e'], by decide, proper_of_all rfl, by decide, by decide⟩
  let upper : Label :=
    ⟨['E', 'X', 'A', 'M', 'P', 'L', 'E'], by decide, proper_of_all rfl, by decide, by decide⟩
  let a : Label := ⟨['a'], by decide, proper_of_all rfl, by decide, by decide⟩
  let b : Label := ⟨['b'], by decide, proper_of_all rfl, by decide, by decide⟩
  let w : WrittenHost := ⟨true, [mixed, com], top.cons mixed, false⟩
  let v : WrittenHost := ⟨false, [a, b, upper, com], ((top.cons upper).cons b).cons a, true⟩
  have parsed : parse "*.Example.com" = .ok n := by decide +kernel
  have matching := matches_by_labels parsed
  have written : n.host = w.chars := by decide +kernel
  have named : w.Names v := ⟨[a, b], [upper, com], by decide, rfl, by decide +kernel⟩
  exact ⟨parsed, ((matching.2.2 w written).2 _ v (by decide +kernel) rfl).2 named,
    matching.1 "é.example.com"⟩

end PolicyValues.HostName
