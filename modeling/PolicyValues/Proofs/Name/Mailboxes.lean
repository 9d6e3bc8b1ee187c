import Mathlib.Data.List.Basic
import Mathlib.Data.List.TakeWhile
import PolicyValues.Name.Mailbox
import PolicyValues.Proofs.Text.Characters
import PolicyValues.Proofs.Text.Digits

/-!
A mailbox is read from two parts with one `@` between them. Lowering a domain forbids nothing new,
so what was read is read back from its text.
-/
namespace PolicyValues.Mailbox
open Text

structure IsPart (cs : List Char) : Prop where
  ne_nil : cs ≠ []
  at_not_mem : '@' ∉ cs
  not_blank : ∀ c ∈ cs, isBlank c = false
  not_control : ∀ c ∈ cs, isControl c = false

theorem isPart_of_not_forbidden {cs : List Char} (some_char : cs ≠ []) (no_at : '@' ∉ cs)
    (clean : ∀ c ∈ cs, isForbidden c = false) : IsPart cs :=
  ⟨some_char, no_at, fun c mem => (Bool.or_eq_false_iff.1 (clean c mem)).1,
    fun c mem => (Bool.or_eq_false_iff.1 (clean c mem)).2⟩

theorem IsPart.not_forbidden {cs : List Char} (h : IsPart cs) : ∀ c ∈ cs, isForbidden c = false :=
  fun c mem => Bool.or_eq_false_iff.2 ⟨h.not_blank c mem, h.not_control c mem⟩

theorem isForbidden_toLower {c : Char} (h : isForbidden c = false) :
    isForbidden c.toLower = false := by
  rcases toLower_cases c with same | ⟨low, high⟩
  · rw [same, h]
  · simp only [isForbidden, isBlank, isControl, Bool.or_eq_false_iff, Bool.and_eq_false_iff,
      decide_eq_false_iff_not, beq_eq_false_iff_ne, ne_eq]
    omega

theorem IsPart.lower {cs : List Char} (h : IsPart cs) : IsPart (lower cs) := by
  refine isPart_of_not_forbidden ?_ ?_ fun c mem => ?_
  · exact fun empty => h.ne_nil (List.map_eq_nil_iff.1 empty)
  · rw [mem_lower_iff rfl]
    exact h.at_not_mem
  · obtain ⟨d, inside, rfl⟩ := List.mem_map.1 mem
    exact isForbidden_toLower (h.not_forbidden d inside)

theorem fromFirst?_eq_none_iff {p : Char → Bool} {cs : List Char} :
    fromFirst? p cs = none ↔ ∀ c ∈ cs, p c = false := by
  have empty : fromFirst? p cs = none ↔ cs.dropWhile (fun c => !p c) = [] := by
    unfold fromFirst?
    split <;> simp_all
  simp only [empty, List.dropWhile_eq_nil_iff, Bool.not_eq_true']

theorem read_eq_ok_iff {cs : List Char} {m : Mailbox} :
    read cs = .ok m ↔ ∃ localPart domain, IsPart localPart ∧ IsPart domain ∧
      cs = localPart ++ '@' :: domain ∧ m = ⟨localPart, lower domain⟩ := by
  constructor
  · intro h
    unfold read at h
    split at h
    · simp only [reduceCtorEq] at h
    rename_i localPart domain split
    have whole := append_of_splitFirst? split
    split at h
    · simp only [reduceCtorEq] at h
    rename_i some_local
    split at h
    · simp only [reduceCtorEq] at h
    rename_i some_domain
    split at h
    · simp only [reduceCtorEq] at h
    · simp only [reduceCtorEq] at h
    rename_i clean single
    rw [fromFirst?_eq_none_iff] at clean single
    rw [whole, List.forall_mem_append, List.forall_mem_cons] at clean
    have no_at : '@' ∉ domain := fun mem => absurd (single '@' mem) (by decide)
    exact ⟨localPart, domain,
      isPart_of_not_forbidden some_local (not_mem_of_splitFirst? split) clean.1,
      isPart_of_not_forbidden some_domain no_at clean.2.2, whole, (Except.ok.inj h).symm⟩
  · rintro ⟨localPart, domain, isLocal, isDomain, rfl, rfl⟩
    have clean : fromFirst? isForbidden (localPart ++ '@' :: domain) = none :=
      fromFirst?_eq_none_iff.2 (List.forall_mem_append.2
        ⟨isLocal.not_forbidden, List.forall_mem_cons.2 ⟨rfl, isDomain.not_forbidden⟩⟩)
    have single : fromFirst? (· == '@') domain = none := fromFirst?_eq_none_iff.2 fun c mem =>
      beq_eq_false_iff_ne.2 (ne_of_mem_of_not_mem mem isDomain.at_not_mem)
    simp only [read, splitFirst?_append isLocal.at_not_mem, isLocal.ne_nil, isDomain.ne_nil,
      if_false, clean, single]

/-! ## Mailboxes that were read -/

structure Readable (m : Mailbox) : Prop where
  localPart : IsPart m.localPart
  domain : IsPart m.domain
  lowered : lower m.domain = m.domain

theorem readable_of_read {cs : List Char} {m : Mailbox} (h : read cs = .ok m) : m.Readable := by
  obtain ⟨localPart, domain, isLocal, isDomain, -, rfl⟩ := read_eq_ok_iff.1 h
  exact ⟨isLocal, isDomain.lower, lower_lower domain⟩

theorem readable_of_parse {text : String} {m : Mailbox} (h : parse text = .ok m) : m.Readable :=
  readable_of_read (mapError_eq_ok_iff.1 h)

theorem Readable.not_forbidden {m : Mailbox} (h : m.Readable) :
    ∀ c ∈ m.chars, isForbidden c = false :=
  List.forall_mem_append.2
    ⟨h.localPart.not_forbidden, List.forall_mem_cons.2 ⟨rfl, h.domain.not_forbidden⟩⟩

theorem Readable.read_chars {m : Mailbox} (h : m.Readable) : read m.chars = .ok m :=
  read_eq_ok_iff.2 ⟨m.localPart, m.domain, h.localPart, h.domain, rfl, by rw [h.lowered]⟩

theorem parse_text {text : String} {m : Mailbox} (h : parse text = .ok m) :
    parse m.text = .ok m := by
  rw [parse, Mailbox.text, String.toList_ofList]
  exact mapError_eq_ok_iff.2 (readable_of_parse h).read_chars

/-! ## Two parts as texts -/

theorem new_eq_ok_iff {localPart domain : String} {m : Mailbox} :
    new localPart domain = .ok m ↔ IsPart localPart.toList ∧ IsPart domain.toList ∧
      m = ⟨localPart.toList, lower domain.toList⟩ := by
  rw [new, parse, mapError_eq_ok_iff, read_eq_ok_iff, toList_around '@' rfl]
  constructor
  · rintro ⟨front, back, isLocal, isDomain, same, rfl⟩
    obtain ⟨rfl, -, rfl⟩ :=
      (List.append_cons_inj_of_notMem isLocal.at_not_mem isDomain.at_not_mem).1 same.symm
    exact ⟨isLocal, isDomain, rfl⟩
  · rintro ⟨isLocal, isDomain, rfl⟩
    exact ⟨localPart.toList, domain.toList, isLocal, isDomain, rfl, rfl⟩

theorem exists_parse_iff {text : String} :
    (∃ m, parse text = .ok m) ↔ ∃ localPart domain : String, IsPart localPart.toList ∧
      IsPart domain.toList ∧ text = localPart ++ "@" ++ domain := by
  constructor
  · rintro ⟨m, parsed⟩
    obtain ⟨localPart, domain, isLocal, isDomain, whole, -⟩ :=
      read_eq_ok_iff.1 (mapError_eq_ok_iff.1 parsed)
    refine ⟨String.ofList localPart, String.ofList domain, ?_, ?_, ?_⟩
    · rwa [String.toList_ofList]
    · rwa [String.toList_ofList]
    · rw [← String.toList_inj, toList_around '@' rfl, String.toList_ofList, String.toList_ofList,
        whole]
  · rintro ⟨localPart, domain, isLocal, isDomain, rfl⟩
    exact ⟨_, new_eq_ok_iff.2 ⟨isLocal, isDomain, rfl⟩⟩

/-- A mailbox is made of exactly two parts, however it is made: the local part is kept as it is
written and the domain up to case, so these two tell mailboxes apart. -/
theorem made_of_two_parts :
    (∀ localPart domain : String,
      ((∃ m, new localPart domain = .ok m) ↔
        IsPart localPart.toList ∧ IsPart domain.toList) ∧
      ∀ m, new localPart domain = .ok m →
        m.localPart = localPart.toList ∧ m.domain = lower domain.toList) ∧
    (∀ text : String, (∃ m, parse text = .ok m) ↔ ∃ localPart domain : String,
      IsPart localPart.toList ∧ IsPart domain.toList ∧ text = localPart ++ "@" ++ domain) ∧
    (∀ text m, parse text = .ok m → parse m.text = .ok m) ∧
    ∀ (localPart domain localPart' domain' : String) (m m' : Mailbox),
      parse (localPart ++ "@" ++ domain) = .ok m → parse (localPart' ++ "@" ++ domain') = .ok m' →
        (m = m' ↔ localPart = localPart' ∧ EqFold domain.toList domain'.toList) := by
  refine ⟨fun localPart domain => ⟨⟨?_, ?_⟩, ?_⟩, fun text => exists_parse_iff,
    fun text m => parse_text, ?_⟩
  · rintro ⟨m, made⟩
    obtain ⟨isLocal, isDomain, -⟩ := new_eq_ok_iff.1 made
    exact ⟨isLocal, isDomain⟩
  · rintro ⟨isLocal, isDomain⟩
    exact ⟨_, new_eq_ok_iff.2 ⟨isLocal, isDomain, rfl⟩⟩
  · intro m made
    obtain ⟨-, -, rfl⟩ := new_eq_ok_iff.1 made
    exact ⟨rfl, rfl⟩
  · intro localPart domain localPart' domain' m m' parsed parsed'
    obtain ⟨-, -, rfl⟩ := new_eq_ok_iff.1 parsed
    obtain ⟨-, -, rfl⟩ := new_eq_ok_iff.1 parsed'
    rw [mk.injEq, String.toList_inj, EqFold]

theorem mixed_case_domain_made :
    let m : Mailbox := ⟨"Anne.A".toList, "isrg.sün.com".toList⟩
    new "Anne.A" "ISRG.SüN.com" = .ok m ∧ m.domain = lower "ISRG.SüN.com".toList ∧
      parse m.text = .ok m ∧ parse "Anne.A@isrg.sün.COM" = .ok m ∧
      ("Anne.A" = "Anne.A" ∧ EqFold "ISRG.SüN.com".toList "isrg.sün.COM".toList) := by
  intro m
  have made : new "Anne.A" "ISRG.SüN.com" = .ok m := by decide +kernel
  have parsed : parse ("Anne.A" ++ "@" ++ "ISRG.SüN.com") = .ok m := by decide +kernel
  have parsed' : parse ("Anne.A" ++ "@" ++ "isrg.sün.COM") = .ok m := by decide +kernel
  obtain ⟨two_parts, -, shown, told_apart⟩ := made_of_two_parts
  exact ⟨made, ((two_parts _ _).2 m made).2, shown _ m parsed, parsed',
    (told_apart _ _ _ _ m m parsed parsed').1 rfl⟩

end PolicyValues.Mailbox
