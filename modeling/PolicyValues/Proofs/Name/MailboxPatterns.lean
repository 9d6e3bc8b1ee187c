import PolicyValues.Proofs.Name.Mailboxes
import PolicyValues.Proofs.Text.Endings

/-!
Which mailboxes a pattern matches, by the form of the pattern: one box, the boxes below a domain,
or those at a domain. Domains are compared up to case, and their ends between characters.
-/
namespace PolicyValues.Mailbox
open Text

theorem matchesPattern_box {m : Mailbox} {pattern : String} {localPart domain : List Char}
    (no_at : '@' ∉ localPart) (split : pattern.toList = localPart ++ '@' :: domain) :
    m.matchesPattern pattern = true ↔ localPart = m.localPart ∧ EqFold domain m.domain := by
  simp only [matchesPattern, split, splitFirst?_append no_at, decide_eq_true_iff]

theorem matchesPattern_below {m : Mailbox} {pattern : String} (no_at : '@' ∉ pattern.toList)
    (dot : pattern.toList.head? = some '.') :
    m.matchesPattern pattern = true ↔ ∃ front back, front ≠ [] ∧ m.domain = front ++ back ∧
      EqFold back pattern.toList := by
  simp only [matchesPattern, splitFirst?_eq_none_iff.2 no_at, if_pos dot, decide_eq_true_iff]
  exact endsBelow_iff

theorem matchesPattern_host {m : Mailbox} {pattern : String} (no_at : '@' ∉ pattern.toList)
    (dot : pattern.toList.head? ≠ some '.') :
    m.matchesPattern pattern = true ↔ EqFold pattern.toList m.domain := by
  simp only [matchesPattern, splitFirst?_eq_none_iff.2 no_at, if_neg dot, decide_eq_true_iff]
  exact eq_comm

/-! ## Case of patterns -/

theorem head?_lower_iff {mark : Char} (h : mark.isAlpha = false) {cs : List Char} :
    (lower cs).head? = some mark ↔ cs.head? = some mark := by
  rw [lower, List.head?_map, Option.map_eq_some_iff]
  constructor
  · rintro ⟨c, first, lowered⟩
    rw [first, (toLower_eq_iff h).1 lowered]
  · intro first
    exact ⟨mark, first, (toLower_eq_iff h).2 rfl⟩

def AgreeInDomain (p p' : List Char) : Prop :=
  (∃ localPart domain domain', '@' ∉ localPart ∧ p = localPart ++ '@' :: domain ∧
    p' = localPart ++ '@' :: domain' ∧ EqFold domain domain') ∨
  ('@' ∉ p ∧ EqFold p p')

theorem matchesPattern_congr {pattern pattern' : String}
    (agree : AgreeInDomain pattern.toList pattern'.toList) (m : Mailbox) :
    m.matchesPattern pattern = m.matchesPattern pattern' := by
  rw [Bool.eq_iff_iff]
  rcases agree with ⟨localPart, domain, domain', no_at, split, split', same⟩ | ⟨no_at, same⟩
  · have folded : lower domain = lower domain' := same
    rw [matchesPattern_box no_at split, matchesPattern_box no_at split', EqFold, EqFold, folded]
  · have folded : lower pattern.toList = lower pattern'.toList := same
    have no_at' : '@' ∉ pattern'.toList := by
      rwa [← mem_lower_iff rfl, ← folded, mem_lower_iff rfl]
    by_cases dot : pattern.toList.head? = some '.'
    · have dot' : pattern'.toList.head? = some '.' := by
        rwa [← head?_lower_iff rfl, ← folded, head?_lower_iff rfl]
      simp only [matchesPattern_below no_at dot, matchesPattern_below no_at' dot', EqFold, folded]
    · have dot' : pattern'.toList.head? ≠ some '.' := by
        rwa [ne_eq, ← head?_lower_iff rfl, ← folded, head?_lower_iff rfl]
      rw [matchesPattern_host no_at dot, matchesPattern_host no_at' dot', EqFold, EqFold, folded]

/-! ## Matching -/

theorem Readable.matchesPattern_text_iff {m m' : Mailbox} (h : m.Readable) (h' : m'.Readable) :
    m.matchesPattern m'.text = true ↔ m = m' := by
  have split : m'.text.toList = m'.localPart ++ '@' :: m'.domain := by
    rw [text, String.toList_ofList, chars]
  rw [matchesPattern_box h'.localPart.at_not_mem split, EqFold, h.lowered, h'.lowered]
  constructor
  · rintro ⟨sameLocal, sameDomain⟩
    obtain ⟨localPart, domain⟩ := m
    simp only at sameLocal sameDomain
    rw [← sameLocal, ← sameDomain]
  · rintro rfl
    exact ⟨rfl, rfl⟩

/-- What each form of pattern asks of a mailbox. -/
structure MatchedByForm (m : Mailbox) (pattern : String) : Prop where
  box : ∀ localPart domain, '@' ∉ localPart → pattern.toList = localPart ++ '@' :: domain →
    (m.matchesPattern pattern = true ↔ localPart = m.localPart ∧ EqFold domain m.domain)
  below : '@' ∉ pattern.toList → pattern.toList.head? = some '.' →
    (m.matchesPattern pattern = true ↔ ∃ front back, front ≠ [] ∧ m.domain = front ++ back ∧
      EqFold back pattern.toList)
  host : '@' ∉ pattern.toList → pattern.toList.head? ≠ some '.' →
    (m.matchesPattern pattern = true ↔ EqFold pattern.toList m.domain)

/-- Patterns match by their form. So the text of a mailbox matches that mailbox alone, and the case
of a domain in a pattern does not count. -/
theorem patterns_match_by_form :
    (∀ (m : Mailbox) (pattern : String), m.MatchedByForm pattern) ∧
    (∀ (text text' : String) (m m' : Mailbox), parse text = .ok m → parse text' = .ok m' →
      (m.matchesPattern m'.text = true ↔ m = m')) ∧
    ∀ (m : Mailbox) (pattern pattern' : String),
      AgreeInDomain pattern.toList pattern'.toList →
        m.matchesPattern pattern = m.matchesPattern pattern' := by
  refine ⟨fun m pattern => ?_, ?_, fun m _ _ agree => matchesPattern_congr agree m⟩
  · exact ⟨fun _ _ => matchesPattern_box, matchesPattern_below, matchesPattern_host⟩
  · intro text text' m m' parsed parsed'
    exact (readable_of_parse parsed).matchesPattern_text_iff (readable_of_parse parsed')

theorem matched_below_wide_domain :
    let m : Mailbox := ⟨"Anne".toList, "isrg.é.sun.com".toList⟩
    m.matchesPattern ".é.SUN.com" = true ∧ m.matchesPattern ".é.Sun.COM" = true ∧
      parse "Anne@ISRG.é.sun.com" = .ok m ∧ m.matchesPattern m.text = true := by
  intro m
  have parsed : parse "Anne@ISRG.é.sun.com" = .ok m := by decide +kernel
  have agree : AgreeInDomain ".é.SUN.com".toList ".é.Sun.COM".toList :=
    .inr ⟨by decide +kernel, by decide +kernel⟩
  obtain ⟨by_form, own_text, same_case⟩ := patterns_match_by_form
  have below : m.matchesPattern ".é.SUN.com" = true :=
    ((by_form m _).below (by decide +kernel) (by decide +kernel)).2
      ⟨"isrg".toList, ".é.sun.com".toList, by decide +kernel, by decide +kernel, by decide +kernel⟩
  exact ⟨below, by rw [← same_case m _ _ agree, below], parsed,
    (own_text _ _ m m parsed parsed).2 rfl⟩

end PolicyValues.Mailbox
