import PolicyValues.Proofs.Duration.Amounts

/-!
What the reader of durations accepts: a number for some of the components, in descending order and
with a mark before those of time. The duration has the written amounts exactly.
-/
namespace PolicyValues.Duration
open Text

namespace Component

def designator : Component → Char
  | years => 'Y'
  | months => 'M'
  | days => 'D'
  | hours => 'H'
  | minutes => 'M'
  | seconds => 'S'

def timed : Component → Bool
  | years | months | days => false
  | hours | minutes | seconds => true

def dates : List Component := [years, months, days]

def times : List Component := [hours, minutes, seconds]

theorem mem_dates_iff {component : Component} : component ∈ dates ↔ component.timed = false := by
  cases component <;> decide

theorem mem_times_iff {component : Component} : component ∈ times ↔ component.timed = true := by
  cases component <;> decide

theorem not_mem_times_iff {component : Component} : component ∉ times ↔ component ∈ dates := by
  rw [mem_times_iff, mem_dates_iff, Bool.not_eq_true]

theorem forall_dates_times_iff {P : Component → Prop} :
    (∀ c ∈ dates, P c) ∧ (∀ c ∈ times, P c) ↔ ∀ c, P c := by
  constructor
  · rintro ⟨dated, timed⟩ c
    by_cases behind : c ∈ times
    · exact timed c behind
    · exact dated c (not_mem_times_iff.1 behind)
  · intro all
    exact ⟨fun c _ => all c, fun c _ => all c⟩

theorem ofDesignator?_eq_some_iff {inTime : Bool} {letter : Char} {component : Component} :
    ofDesignator? inTime letter = some component ↔
      inTime = component.timed ∧ letter = component.designator := by
  constructor
  · intro h
    unfold ofDesignator? at h
    split at h <;> rename_i kind <;> split at h <;>
      simp only [Option.some.injEq, reduceCtorEq] at h <;> subst h
    all_goals simp_all [timed, designator]
  · rintro ⟨rfl, rfl⟩
    cases component <;> rfl

end Component

/-! ## Numbers in a row -/

section
variable (number : Component → Option Digits.Written)

def Admissible : Prop :=
  ∀ component, ∀ n ∈ number component, n.Lexical ∧ component.Takes n

def partChars (component : Component) : List Char :=
  (number component).elim [] fun n => n.chars ++ [component.designator]

variable {number} in
theorem partChars_of_none {component : Component} (h : number component = none) :
    partChars number component = [] := by
  rw [partChars, h, Option.elim_none]

variable {number} in
theorem unsigned?_part {component : Component} {n : Digits.Written} (lexical : n.Lexical)
    (found : number component = some n) (rest : List Char) :
    Digits.unsigned? (partChars number component ++ rest) =
      some (n, component.designator :: rest) := by
  have designates : Component.ofDesignator? component.timed component.designator =
      some component := Component.ofDesignator?_eq_some_iff.2 ⟨rfl, rfl⟩
  obtain ⟨digit, point⟩ := Component.designator_ends designates
  rw [partChars, found, Option.elim_some, List.append_assoc]
  exact Digits.unsigned?_chars lexical (stops_cons.2 digit) fun h => point (Option.some.inj h)

def bodyChars (marked : Bool) : List Char :=
  Component.dates.flatMap (partChars number) ++
    if marked then 'T' :: Component.times.flatMap (partChars number) else []

structure Progress.Reaches (components : List Component) (p q : Progress) : Prop where
  inTime : q.inTime = p.inTime
  amount : ∀ c, q.size.amount c =
    if c ∈ components then (number c).elim (p.size.amount c) Digits.Written.toRat
    else p.size.amount c
  last : q.last = none ↔ p.last = none ∧ ∀ c ∈ components, number c = none
  timeComponents : q.timeComponents =
    p.timeComponents + if p.inTime then components.countP fun c => (number c).isSome else 0
  admits : ∀ c, p.admits c = true → (∀ before ∈ components, before.rank < c.rank) →
    q.admits c = true

variable {number}

theorem Progress.Reaches.nil (p : Progress) : Reaches number [] p p where
  inTime := rfl
  amount := fun c => (if_neg (List.not_mem_nil (a := c))).symm
  last := by simp only [List.not_mem_nil, false_implies, implies_true, and_true]
  timeComponents := by simp only [List.countP_nil, ite_self, Nat.add_zero]
  admits := fun _ admitted _ => admitted

theorem Progress.Reaches.skip {components : List Component} {component : Component}
    {p q : Progress} (h : Reaches number components p q) (absent : number component = none) :
    Reaches number (component :: components) p q where
  inTime := h.inTime
  amount := by
    intro c
    rw [h.amount c]
    by_cases same : c = component
    · simp only [same, absent, List.mem_cons, true_or, Option.elim_none, ite_self]
    · simp only [List.mem_cons, same, false_or]
  last := by rw [h.last, List.forall_mem_cons, and_iff_right absent]
  timeComponents := by
    rw [h.timeComponents, List.countP_cons_of_neg]
    rw [absent]
    exact Bool.false_ne_true
  admits := fun c admitted later =>
    h.admits c admitted fun before mem => later before (List.mem_cons_of_mem _ mem)

theorem Progress.Reaches.step {components : List Component} {component : Component}
    {p q : Progress} {n : Digits.Written} {size : Magnitudes}
    (h : Reaches number components (p.push component size) q) (found : number component = some n)
    (new : component ∉ components)
    (sized : ∀ c, size.amount c = if c = component then n.toRat else p.size.amount c) :
    Reaches number (component :: components) p q where
  inTime := h.inTime
  amount := by
    intro c
    have amount : q.size.amount c =
        if c ∈ components then (number c).elim (size.amount c) Digits.Written.toRat
        else size.amount c := h.amount c
    rw [amount, sized c]
    by_cases same : c = component
    · simp only [same, new, found, List.mem_cons, true_or, if_true, if_false, Option.elim_some]
    · simp only [same, List.mem_cons, false_or, if_false]
  last := by
    rw [h.last]
    simp only [push, reduceCtorEq, false_and, List.forall_mem_cons, found, and_false]
  timeComponents := by
    rw [h.timeComponents, List.countP_cons, found]
    by_cases timed : p.inTime = true
    · simp only [push, timed, Option.isSome_some, if_true]
      omega
    · simp only [push, timed, Bool.false_eq_true, if_false, Nat.add_zero]
  admits := by
    intro c _ later
    refine h.admits c ?_ fun before mem => later before (List.mem_cons_of_mem _ mem)
    exact decide_eq_true (later component List.mem_cons_self)

def Progress.marked (p : Progress) : Progress := { p with inTime := true }

theorem readComponents_mark {p : Progress} (unmarked : p.inTime = false) (rest : List Char) :
    readComponents p ('T' :: rest) = readComponents p.marked rest := by
  rw [readComponents, if_neg (Bool.eq_false_iff.1 unmarked)]
  rfl

theorem readComponents_flatMap {components : List Component}
    (admissible : ∀ c ∈ components, ∀ n ∈ number c, n.Lexical ∧ c.Takes n) (p : Progress)
    (ascending : components.Pairwise fun a b => a.rank < b.rank)
    (timing : ∀ c ∈ components, p.inTime = c.timed)
    (admitted : ∀ c ∈ components, p.admits c = true) (rest : List Char) :
    ∃ q, readComponents p (components.flatMap (partChars number) ++ rest) =
      readComponents q rest ∧ p.Reaches number components q := by
  induction components generalizing p with
  | nil => exact ⟨p, rfl, .nil p⟩
  | cons component components ih =>
    rw [List.pairwise_cons] at ascending
    rw [List.forall_mem_cons] at admissible timing admitted
    rw [List.flatMap_cons, List.append_assoc]
    cases found : number component with
    | none =>
      obtain ⟨q, read, reached⟩ := ih admissible.2 p ascending.2 timing.2 admitted.2
      refine ⟨q, ?_, reached.skip found⟩
      rw [← read, partChars, found]
      rfl
    | some n =>
      obtain ⟨lexical, takes⟩ := admissible.1 n found
      have designates : Component.ofDesignator? p.inTime component.designator = some component :=
        Component.ofDesignator?_eq_some_iff.2 ⟨timing.1, rfl⟩
      generalize components.flatMap (partChars number) ++ rest = more at ih ⊢
      have digits := unsigned?_part lexical found more
      obtain ⟨size, set⟩ := (Component.exists_set_iff lexical).2 takes
      have later : ∀ c ∈ components, (p.push component size).admits c = true :=
        fun c mem => decide_eq_true (ascending.1 c mem)
      obtain ⟨q, read, reached⟩ := ih admissible.2 (p.push component size) ascending.2 timing.2
        later
      refine ⟨q, ?_, reached.step found
        (fun mem => Nat.lt_irrefl _ (ascending.1 component mem)) (Component.amount_of_set lexical set)⟩
      rw [← read]
      exact readComponents_number digits designates admitted.1 set

structure Progress.Finished (number : Component → Option Digits.Written) (marked : Bool)
    (q : Progress) : Prop where
  amount : ∀ c, q.size.amount c = (number c).elim 0 Digits.Written.toRat
  last : q.last = none ↔ ∀ c, number c = none
  timeless : (q.inTime && q.timeComponents == 0) = true ↔
    marked = true ∧ ∀ c ∈ Component.times, number c = none

theorem Progress.Reaches.finished_dates {q : Progress}
    (reached : Reaches number Component.dates {} q)
    (timeless : ∀ c ∈ Component.times, number c = none) : q.Finished number false where
  amount := by
    intro c
    rw [reached.amount, Magnitudes.amount_nothing]
    by_cases behind : c ∈ Component.times
    · rw [timeless c behind, Option.elim_none, ite_self]
    · rw [if_pos (Component.not_mem_times_iff.1 behind)]
  last := by
    have all := Component.forall_dates_times_iff (P := fun c => number c = none)
    rw [reached.last, and_iff_right rfl, ← all, and_iff_left timeless]
  timeless := by
    simp only [reached.inTime, Bool.false_and, Bool.false_eq_true, false_and]

theorem Progress.Reaches.finished_times {p q : Progress}
    (dated : Reaches number Component.dates {} p)
    (timed : Reaches number Component.times p.marked q) : q.Finished number true where
  amount := by
    intro c
    have before : p.marked.size.amount c =
        if c ∈ Component.dates then (number c).elim 0 Digits.Written.toRat else 0 := by
      rw [← Magnitudes.amount_nothing c]
      exact dated.amount c
    rw [timed.amount, before]
    by_cases behind : c ∈ Component.times
    · cases number c <;>
        simp only [behind, if_true, Option.elim_none, Option.elim_some, ite_self]
    · rw [if_neg behind, if_pos (Component.not_mem_times_iff.1 behind)]
  last := by
    have last : p.marked.last = none ↔ ∀ c ∈ Component.dates, number c = none :=
      dated.last.trans (and_iff_right rfl)
    rw [timed.last, last, Component.forall_dates_times_iff]
  timeless := by
    have marked : p.marked.inTime = true := rfl
    have none_before : p.marked.timeComponents = 0 := dated.timeComponents
    simp only [timed.inTime, timed.timeComponents, marked, none_before, Bool.true_and, if_true,
      Nat.zero_add, beq_iff_eq, true_and, List.countP_eq_zero, Bool.not_eq_true,
      Option.isSome_eq_false_iff, Option.isNone_iff_eq_none]

theorem readComponents_bodyChars (admissible : Admissible number) {marked : Bool}
    (timeless : marked = false → ∀ c ∈ Component.times, number c = none) :
    ∃ q, readComponents {} (bodyChars number marked) = .ok q ∧ q.Finished number marked := by
  obtain ⟨p, read, dated⟩ := readComponents_flatMap (fun c _ => admissible c) {} (show Component.dates.Pairwise
    fun a b => a.rank < b.rank by decide) (by decide) (by decide)
    (if marked then 'T' :: Component.times.flatMap (partChars number) else [])
  rw [bodyChars, read]
  cases marked with
  | false =>
    refine ⟨p, ?_, dated.finished_dates (timeless rfl)⟩
    rw [if_neg Bool.false_ne_true, readComponents]
  | true =>
    have timing : ∀ c ∈ Component.times, true = c.timed := by decide
    have later : ∀ c ∈ Component.times, ∀ before ∈ Component.dates, before.rank < c.rank := by
      decide
    obtain ⟨q, read', timed⟩ := readComponents_flatMap (fun c _ => admissible c) p.marked (by decide)
      (fun c mem => timing c mem) (fun c mem => dated.admits c rfl (later c mem)) []
    rw [List.append_nil, readComponents] at read'
    refine ⟨q, ?_, dated.finished_times timed⟩
    rw [if_pos rfl, readComponents_mark dated.inTime, read']

/-! ## Texts that are read -/

/-- What is left when `p` is reached: the numbers of later components, and the mark of time where
it has not been read yet. -/
structure Rest (p : Progress) (cs : List Char) (number : Component → Option Digits.Written)
    (marked : Bool) : Prop where
  chars : cs =
    if p.inTime then Component.times.flatMap (partChars number) else bodyChars number marked
  admissible : Admissible number
  admitted : ∀ c, number c ≠ none → p.admits c = true
  dates : p.inTime = true → ∀ c ∈ Component.dates, number c = none
  times : p.inTime = false → marked = false → ∀ c ∈ Component.times, number c = none

theorem Rest.cons {p : Progress} {n : Digits.Written} {component : Component} {rest : List Char}
    {size : Magnitudes} {marked : Bool} (h : Rest (p.push component size) rest number marked)
    (lexical : n.Lexical) (takes : component.Takes n) (timing : p.inTime = component.timed)
    (admitted : p.admits component = true) :
    Rest p (n.chars ++ component.designator :: rest)
      (Function.update number component (some n)) marked where
  chars := by
    -- All that is left is of later components, so the new number comes first.
    have below (c : Component) (le : c.rank ≤ component.rank) : number c = none := by
      by_contra present
      have later : component.rank < c.rank := of_decide_eq_true (h.admitted c present)
      omega
    have chars : rest = if component.timed then Component.times.flatMap (partChars number)
        else bodyChars number marked := timing ▸ h.chars
    rw [timing, chars]
    cases component <;>
      simp (disch := decide) [bodyChars, partChars, Component.dates, Component.times,
        Component.timed, Function.update, below]
  admissible := by
    intro c m mem
    by_cases same : c = component
    · subst same
      rw [Function.update_self, Option.mem_some_iff] at mem
      exact mem ▸ ⟨lexical, takes⟩
    · rw [Function.update_of_ne same] at mem
      exact h.admissible c m mem
  admitted := by
    intro c present
    by_cases same : c = component
    · exact same ▸ admitted
    · rw [Function.update_of_ne same] at present
      have later : component.rank < c.rank := of_decide_eq_true (h.admitted c present)
      unfold Progress.admits at *
      cases last : p.last with
      | none => rfl
      | some last' =>
        simp only [last, Option.all_some, decide_eq_true_eq] at admitted ⊢
        omega
  dates := by
    intro timed c dated
    have other : c ≠ component := by
      rintro rfl
      rw [timing, Component.mem_dates_iff.1 dated] at timed
      exact Bool.false_ne_true timed
    rw [Function.update_of_ne other]
    exact h.dates timed c dated
  times := by
    intro untimed unmarked c behind
    have other : c ≠ component := by
      rintro rfl
      rw [timing, Component.mem_times_iff.1 behind] at untimed
      exact Bool.false_ne_true untimed.symm
    rw [Function.update_of_ne other]
    exact h.times untimed unmarked c behind

theorem Rest.mark {p : Progress} {rest : List Char} {marked : Bool} (unmarked : p.inTime = false)
    (h : Rest p.marked rest number marked) : Rest p ('T' :: rest) number true where
  chars := by
    have dates : Component.dates.flatMap (partChars number) = [] :=
      List.flatMap_eq_nil_iff.2 fun c mem => partChars_of_none (h.dates rfl c mem)
    have chars : rest = Component.times.flatMap (partChars number) := h.chars
    simp only [unmarked, Bool.false_eq_true, if_false, bodyChars, dates, chars, if_true,
      List.nil_append]
  admissible := h.admissible
  admitted := h.admitted
  dates := by simp only [unmarked, Bool.false_eq_true, false_implies]
  times := by simp only [Bool.true_eq_false, false_implies, implies_true]

theorem Rest.nil (p : Progress) : Rest p [] (fun _ => none) false where
  chars := by split <;> rfl
  admissible := by simp only [Admissible, Option.mem_def, reduceCtorEq, false_implies, implies_true]
  admitted := fun _ present => absurd rfl present
  dates := fun _ _ _ => rfl
  times := fun _ _ _ _ => rfl

theorem exists_rest {p q : Progress} {cs : List Char} (h : readComponents p cs = .ok q) :
    ∃ number marked, Rest p cs number marked := by
  fun_induction readComponents p cs with
  | case1 p => exact ⟨_, _, .nil p⟩
  | case3 p rest unmarked ih =>
    obtain ⟨number, marked, behind⟩ := ih h
    exact ⟨number, true, Rest.mark (Bool.eq_false_iff.2 unmarked) behind⟩
  | case8 p cs _ _ n letter rest digits component designates admitted size set ih =>
    obtain ⟨number, marked, behind⟩ := ih h
    obtain ⟨timing, rfl⟩ := Component.ofDesignator?_eq_some_iff.1 designates
    obtain ⟨lexical, rfl⟩ := Digits.lexical_of_unsigned? digits
    have takes : component.Takes n := (Component.exists_set_iff lexical).1 ⟨size, set⟩
    have earlier : Rest (p.push component size) rest number marked := behind
    exact ⟨_, marked, earlier.cons lexical takes timing admitted⟩
  | _ => simp only [reduceCtorEq] at h

/-! ## Whole texts -/

theorem read_eq_ok_iff {cs : List Char} {d : Duration} :
    read cs = .ok d ↔ ∃ (minus : Bool) (body : List Char) (p : Progress),
      cs = Digits.signChars minus ++ 'P' :: body ∧ readComponents {} body = .ok p ∧
        p.last ≠ none ∧ (p.inTime && p.timeComponents == 0) = false ∧ d = signed minus p.size := by
  constructor
  · intro h
    unfold read at h
    split at h
    rename_i minus unsigned sign
    obtain ⟨⟨_, body⟩, mark, unmarked⟩ := bind_eq_ok_iff.1 h
    obtain rfl := Reader.mark_eq_ok_iff.1 mark
    obtain ⟨p, components, complete⟩ := bind_eq_ok_iff.1 unmarked
    have same : cs = Digits.signChars minus ++ 'P' :: body := by
      split at sign <;> obtain ⟨rfl, rfl⟩ := sign <;> rfl
    split at complete
    · simp only [reduceCtorEq] at complete
    · split at complete
      · simp only [reduceCtorEq] at complete
      · exact ⟨minus, body, p, same, components, ‹_›, Bool.eq_false_iff.2 ‹_›,
          (Except.ok.inj complete).symm⟩
  · rintro ⟨minus, body, p, rfl, components, last, time, rfl⟩
    exact read_of_components components last time

end

/-- A sign, and a number for each component that is written. -/
structure WrittenDuration where
  minus : Bool
  number : Component → Option Digits.Written

namespace WrittenDuration

def hasTime (w : WrittenDuration) : Bool := Component.times.any fun c => (w.number c).isSome

def chars (w : WrittenDuration) : List Char :=
  Digits.signChars w.minus ++ 'P' :: bodyChars w.number w.hasTime

def amount (w : WrittenDuration) (component : Component) : ℚ :=
  (w.number component).elim 0 Digits.Written.toRat

structure InGrammar (w : WrittenDuration) : Prop where
  admissible : Admissible w.number
  some_number : ∃ component, w.number component ≠ none

structure Denotes (w : WrittenDuration) (d : Duration) : Prop where
  amount : ∀ component, d.amount component = w.amount component
  negative : d.negative = true ↔ w.minus = true ∧ ∃ component, w.amount component ≠ 0

theorem hasTime_eq_false_iff {w : WrittenDuration} :
    w.hasTime = false ↔ ∀ c ∈ Component.times, w.number c = none := by
  simp only [hasTime, List.any_eq_false, Bool.not_eq_true, Option.isSome_eq_false_iff,
    Option.isNone_iff_eq_none]

theorem amount_nonneg (w : WrittenDuration) (component : Component) : 0 ≤ w.amount component := by
  unfold amount
  cases w.number component with
  | none => exact le_refl 0
  | some n => exact n.toRat_nonneg

theorem Denotes.unique {w : WrittenDuration} {d e : Duration} (hd : w.Denotes d)
    (he : w.Denotes e) : d = e := by
  refine eq_of_amount (fun component => (hd.amount component).trans (he.amount component).symm) ?_
  rw [Bool.eq_iff_iff, hd.negative, he.negative]

theorem InGrammar.read {w : WrittenDuration} (h : w.InGrammar) :
    ∃ d, read w.chars = .ok d ∧ w.Denotes d := by
  obtain ⟨q, components, finished⟩ := readComponents_bodyChars h.admissible hasTime_eq_false_iff.1
  have last : q.last ≠ none := by
    obtain ⟨component, present⟩ := h.some_number
    exact fun none => present (finished.last.1 none component)
  have time : (q.inTime && q.timeComponents == 0) = false := by
    rw [Bool.eq_false_iff, Ne, finished.timeless, ← hasTime_eq_false_iff]
    rintro ⟨some_time, no_time⟩
    rw [some_time] at no_time
    exact absurd no_time (by decide)
  have seconds : 0 ≤ q.size.amount .seconds := by
    rw [finished.amount]
    exact w.amount_nonneg .seconds
  have amount (component : Component) :
      (signed w.minus q.size).amount component = w.amount component :=
    (amount_signed w.minus seconds component).trans (finished.amount component)
  refine ⟨signed w.minus q.size, ?_, amount, ?_⟩
  · exact read_eq_ok_iff.2 ⟨w.minus, _, q, rfl, components, last, time, rfl⟩
  · rw [negative_signed]
    simp only [amount]

theorem exists_of_read {cs : List Char} {d : Duration} (h : Duration.read cs = .ok d) :
    ∃ w : WrittenDuration, cs = w.chars ∧ w.InGrammar := by
  obtain ⟨minus, body, p, rfl, components, last, time, _⟩ := read_eq_ok_iff.1 h
  obtain ⟨number, marked, rest⟩ := exists_rest components
  have body_eq : body = bodyChars number marked := rest.chars
  -- What the reader has counted is what is written, so the mark stands where it is needed.
  obtain ⟨q, components', finished⟩ := readComponents_bodyChars rest.admissible (rest.times rfl)
  rw [← body_eq, components] at components'
  obtain rfl := Except.ok.inj components'
  let w : WrittenDuration := ⟨minus, number⟩
  have hasTime : w.hasTime = marked := by
    cases marked with
    | false => exact hasTime_eq_false_iff.2 (rest.times rfl rfl)
    | true =>
      rw [Bool.eq_false_iff, Ne, finished.timeless, ← hasTime_eq_false_iff (w := w)] at time
      exact Bool.eq_true_of_not_eq_false fun no_time => time ⟨rfl, no_time⟩
  refine ⟨w, ?_, rest.admissible, ?_⟩
  · rw [chars, hasTime, body_eq]
  · rw [Ne, finished.last, not_forall] at last
    exact last

end WrittenDuration

/-- A text is read exactly if it is in the grammar, and as what is written in it. -/
theorem parsed_iff_inGrammar :
    (∀ text : String, (∃ d, parse text = .ok d) ↔
      ∃ w : WrittenDuration, text.toList = w.chars ∧ w.InGrammar) ∧
    (∀ (text : String) (d : Duration), parse text = .ok d ↔
      ∃ w : WrittenDuration, text.toList = w.chars ∧ w.InGrammar ∧ w.Denotes d) := by
  have parsed (text : String) (d : Duration) : parse text = .ok d ↔
      ∃ w : WrittenDuration, text.toList = w.chars ∧ w.InGrammar ∧ w.Denotes d := by
    rw [parse, mapError_eq_ok_iff]
    constructor
    · intro h
      obtain ⟨w, same, inGrammar⟩ := WrittenDuration.exists_of_read h
      obtain ⟨e, read, denotes⟩ := inGrammar.read
      rw [same, read] at h
      exact ⟨w, same, inGrammar, Except.ok.inj h ▸ denotes⟩
    · rintro ⟨w, same, inGrammar, denotes⟩
      obtain ⟨e, read, denotes'⟩ := inGrammar.read
      rw [same, read, denotes.unique denotes']
  refine ⟨fun text => ⟨?_, ?_⟩, parsed⟩
  · rintro ⟨d, h⟩
    obtain ⟨w, same, inGrammar, _⟩ := (parsed text d).1 h
    exact ⟨w, same, inGrammar⟩
  · rintro ⟨w, same, inGrammar⟩
    obtain ⟨d, _, denotes⟩ := inGrammar.read
    exact ⟨d, (parsed text d).2 ⟨w, same, inGrammar, denotes⟩⟩

end PolicyValues.Duration
