import PolicyValues.Fault
import PolicyValues.Proofs.Text.Runs

/-!
Numbers written in digits are read back. A reader of digits takes what a printer wrote and leaves
the rest, as long as no digit follows. It checks its limit digit by digit, which comes to one check
of the whole number.
-/
namespace PolicyValues.Digits
open Text

theorem isDigit_of_mem_ofNat {n : Nat} : ∀ c ∈ ofNat n, c.isDigit = true :=
  fun _ => Nat.isDigit_of_mem_toDigits (by decide) (by decide)

theorem ofNat_ne_nil (n : Nat) : ofNat n ≠ [] := Nat.toDigits_ne_nil

theorem length_ofNat_le_iff {n width : Nat} (h : 0 < width) :
    (ofNat n).length ≤ width ↔ n < 10 ^ width := Nat.length_toDigits_le_iff (by decide) h

theorem isDigit_of_mem_padded {width n : Nat} : ∀ c ∈ padded width n, c.isDigit = true := by
  intro c hc
  simp only [padded, List.mem_append, List.mem_replicate] at hc
  rcases hc with ⟨_, rfl⟩ | hc
  · rfl
  · exact isDigit_of_mem_ofNat c hc

theorem padded_ne_nil (width n : Nat) : padded width n ≠ [] := by
  simp only [padded, ne_eq, List.append_eq_nil_iff, ofNat_ne_nil, and_false, not_false_eq_true]

theorem le_length_padded (width n : Nat) : width ≤ (padded width n).length := by
  simp only [padded, List.length_append, List.length_replicate]
  omega

theorem length_padded {width n : Nat} (hwidth : 0 < width) (h : n < 10 ^ width) :
    (padded width n).length = width := by
  have := (length_ofNat_le_iff hwidth).2 h
  simp only [padded, List.length_append, List.length_replicate]
  omega

theorem span_append_of_stops {ds rest : List Char} (hds : ∀ c ∈ ds, c.isDigit = true)
    (hrest : Stops Char.isDigit rest) : span (ds ++ rest) = (ds, rest) := by
  rw [span, takeWhile_append_of_stops hds hrest, dropWhile_append_of_stops hds hrest]

/-! ## Digits counted up below a limit -/

theorem extend?_eq (limit n : Nat) (c : Char) :
    extend? limit n c = checked? limit (10 * n + (c.toNat - 48)) := by
  rw [Nat.mul_comm 10 n]
  unfold extend? checked?
  by_cases tens : n * 10 < limit
  · simp only [tens, if_true, Option.bind_eq_bind, Option.bind_some]
  · have whole : ¬ n * 10 + (c.toNat - 48) < limit := by omega
    simp only [tens, whole, if_false, Option.bind_eq_bind, Option.bind_none]

theorem le_ofDigitChars (ds : List Char) (n : Nat) : n ≤ Nat.ofDigitChars 10 ds n := by
  rw [Nat.ofDigitChars_eq_ofDigitChars_zero]
  exact Nat.le_add_right_of_le (Nat.le_mul_of_pos_left n (Nat.pow_pos (by decide)))

/-- A number only grows with its digits, so what overflows on the way overflows at the end. -/
theorem foldlM_extend? {limit n : Nat} (small : n < limit) (ds : List Char) :
    ds.foldlM (extend? limit) n = checked? limit (Nat.ofDigitChars 10 ds n) := by
  induction ds generalizing n with
  | nil => exact (if_pos small).symm
  | cons d ds ih =>
    rw [List.foldlM_cons, extend?_eq, Nat.ofDigitChars_cons]
    change (checked? limit (10 * n + (d.toNat - 48))).bind (ds.foldlM (extend? limit)) =
      checked? limit (Nat.ofDigitChars 10 ds (10 * n + (d.toNat - 48)))
    generalize 10 * n + (d.toNat - 48) = longer
    by_cases fits : longer < limit
    · rw [checked?, if_pos fits, Option.bind_some, ih fits]
    · have grows := le_ofDigitChars ds longer
      rw [checked?, if_neg fits, Option.bind_none, checked?, if_neg (by omega)]

theorem foldlM_of_digits {limit n : Nat} {ds : List Char} (digits : ∀ c ∈ ds, c.isDigit = true) :
    ds.foldlM (fun n c => if c.isDigit then extend? limit n c else none) n =
      ds.foldlM (extend? limit) n := by
  induction ds generalizing n with
  | nil => rfl
  | cons d ds ih =>
    rw [List.forall_mem_cons] at digits
    simp only [List.foldlM_cons, digits.1, if_true, ih digits.2]

theorem foldlM_of_not_digit {limit n : Nat} {ds : List Char} {c : Char} (mem : c ∈ ds)
    (other : c.isDigit = false) :
    ds.foldlM (fun n c => if c.isDigit then extend? limit n c else none) n = none := by
  induction ds generalizing n with
  | nil => exact absurd mem List.not_mem_nil
  | cons d ds ih =>
    rw [List.foldlM_cons]
    rcases List.mem_cons.1 mem with rfl | mem
    · rw [other]
      rfl
    · refine Option.bind_eq_none_iff.2 fun longer _ => ih mem

theorem fixed?_eq (width : Nat) (cs : List Char) :
    fixed? width cs =
      if (cs.take width).length = width ∧ (cs.take width).all Char.isDigit = true ∧
          value (cs.take width) < 2 ^ 32 then some (value (cs.take width), cs.drop width)
      else none := by
  unfold fixed?
  generalize cs.take width = ds
  by_cases length : ds.length = width
  · by_cases digits : ds.all Char.isDigit = true
    · rw [foldlM_of_digits (List.all_eq_true.1 digits), foldlM_extend? (by decide)]
      change (if ds.length = width then (checked? (2 ^ 32) (value ds)).bind
        fun n => some (n, cs.drop width) else none) = _
      by_cases small : value ds < 2 ^ 32
      · simp only [checked?, length, digits, small, and_self, if_true, Option.bind_some]
      · simp only [checked?, length, digits, small, and_false, if_true, if_false, Option.bind_none]
    · obtain ⟨c, mem, other⟩ := List.all_eq_false.1 (Bool.eq_false_iff.2 digits)
      rw [foldlM_of_not_digit mem (Bool.eq_false_iff.2 other)]
      simp only [digits, Bool.false_eq_true, false_and, and_false, if_false, Option.bind_eq_bind,
        Option.bind_none, ite_self]
  · simp only [length, false_and, if_false]

theorem run?_eq_foldlM (limit n length : Nat) (cs : List Char) :
    run? limit n length cs = ((span cs).1.foldlM (extend? limit) n).map
      fun m => (m, length + (span cs).1.length, (span cs).2) := by
  induction cs generalizing n length with
  | nil => rfl
  | cons c cs ih =>
    by_cases digit : c.isDigit = true
    · simp only [run?, span, digit, List.takeWhile_cons_of_pos, List.dropWhile_cons_of_pos,
        List.foldlM_cons, if_true, List.length_cons] at ih ⊢
      simp only [ih]
      cases extend? limit n c with
      | none => rfl
      | some longer =>
        simp only [Option.bind_eq_bind, Option.bind_some, Nat.add_assoc, Nat.add_comm 1]
    · simp only [run?, span, digit, List.takeWhile_cons_of_neg, List.dropWhile_cons_of_neg,
        if_false, not_false_eq_true, Bool.false_eq_true, List.foldlM_nil]
      rfl

theorem signed?_eq (cs : List Char) :
    signed? cs =
      let negative := cs.head? = some '-'
      let (ds, rest) := span (if negative then cs.drop 1 else cs)
      if ds = [] ∨ 2 ^ 63 ≤ value ds then none
      else some ⟨if negative then -(value ds : Int) else value ds, ds.length, rest⟩ := by
  simp only [signed?, run?_eq_foldlM, foldlM_extend? (show 0 < 2 ^ 63 by decide)]
  generalize span (if cs.head? = some '-' then cs.drop 1 else cs) = taken
  obtain ⟨ds, rest⟩ := taken
  change ((checked? (2 ^ 63) (value ds)).map _).bind _ = _
  by_cases small : value ds < 2 ^ 63
  · simp only [checked?, small, if_true, Option.map_some, Option.bind_some, Nat.zero_add,
      List.length_eq_zero_iff, Nat.not_le.2 small, or_false]
  · simp only [checked?, small, if_false, Option.map_none, Option.bind_none, Nat.not_lt.1 small,
      or_true, if_true]

/-! ## Readers on printed digits -/

theorem fixed?_padded {width n : Nat} (hwidth : 0 < width) (h : n < 10 ^ width) (small : n < 2 ^ 32)
    (rest : List Char) : fixed? width (padded width n ++ rest) = some (n, rest) := by
  have length := length_padded hwidth h
  have all : (padded width n).all Char.isDigit = true := List.all_eq_true.2 isDigit_of_mem_padded
  simp only [fixed?_eq, List.take_left' length, List.drop_left' length, length, all, value_padded,
    small, and_self, if_true]

theorem signed?_of_digits {ds rest : List Char} (hne : ds ≠ []) (hds : ∀ c ∈ ds, c.isDigit = true)
    (small : value ds < 2 ^ 63) (hrest : Stops Char.isDigit rest) :
    signed? (ds ++ rest) = some ⟨value ds, ds.length, rest⟩ := by
  have unsigned : (ds ++ rest).head? ≠ some '-' := by
    obtain ⟨d, more, rfl⟩ := List.exists_cons_of_ne_nil hne
    simp only [List.cons_append, List.head?_cons, ne_eq, Option.some.injEq]
    rintro rfl
    exact absurd (hds '-' List.mem_cons_self) (by decide)
  simp only [signed?_eq, unsigned, if_false, span_append_of_stops hds hrest, hne, Nat.not_le.2 small,
    or_self]

theorem signed?_of_minus {ds rest : List Char} (hne : ds ≠ []) (hds : ∀ c ∈ ds, c.isDigit = true)
    (small : value ds < 2 ^ 63) (hrest : Stops Char.isDigit rest) :
    signed? ('-' :: ds ++ rest) = some ⟨-value ds, ds.length, rest⟩ := by
  simp only [signed?_eq, List.cons_append, List.head?_cons, List.drop_one, List.tail_cons, if_true,
    span_append_of_stops hds hrest, hne, Nat.not_le.2 small, or_self, if_false]

end PolicyValues.Digits

namespace PolicyValues

theorem Reader.mark_cons (expected : Char) (place : String) (rest : List Char) :
    Reader.mark expected place (expected :: rest) = .ok ((), rest) := by
  simp only [Reader.mark, if_true]

theorem Reader.digits_padded {width n : Nat} (field : String) (hwidth : 0 < width)
    (h : n < 10 ^ width) (small : n < 2 ^ 32) (rest : List Char) :
    Reader.digits width field (Digits.padded width n ++ rest) = .ok (n, rest) := by
  simp only [Reader.digits, Digits.fixed?_padded hwidth h small]

theorem Reader.signed_yearChars {year : Int} (field : String) (small : year.natAbs < 2 ^ 63)
    {rest : List Char} (hrest : Text.Stops Char.isDigit rest) :
    Reader.signed 4 field (yearChars year ++ rest) = .ok (year, rest) := by
  have enough := Digits.le_length_padded 4 year.natAbs
  have bound : Digits.value (Digits.padded 4 year.natAbs) < 2 ^ 63 := by rwa [Digits.value_padded]
  have ne_nil := Digits.padded_ne_nil 4 year.natAbs
  by_cases bc : year < 0
  · simp only [Reader.signed, yearChars, if_pos bc,
      Digits.signed?_of_minus ne_nil Digits.isDigit_of_mem_padded bound hrest, Nat.not_lt.2 enough,
      if_false, Digits.value_padded, Except.ok.injEq, Prod.mk.injEq, and_true]
    omega
  · simp only [Reader.signed, yearChars, if_neg bc,
      Digits.signed?_of_digits ne_nil Digits.isDigit_of_mem_padded bound hrest, Nat.not_lt.2 enough,
      if_false, Digits.value_padded, Except.ok.injEq, Prod.mk.injEq, and_true]
    omega

theorem mapError_eq_ok_iff {α ε ε' : Type} {f : ε → ε'} {read : Except ε α} {a : α} :
    read.mapError f = .ok a ↔ read = .ok a := by
  cases read with
  | error e =>
    have failed : (Except.error e : Except ε α).mapError f = .error (f e) := rfl
    simp only [failed, reduceCtorEq]
  | ok b =>
    have kept : (Except.ok b : Except ε α).mapError f = .ok b := rfl
    simp only [kept, Except.ok.injEq]

theorem map_eq_ok_iff {α β ε : Type} {read : Except ε α} {f : α → β} {b : β} :
    read.map f = .ok b ↔ ∃ a, read = .ok a ∧ f a = b := by
  cases read with
  | error e => simp only [Except.map, reduceCtorEq, false_and, exists_false]
  | ok a => simp only [Except.map, Except.ok.injEq, exists_eq_left']

theorem map_eq_error_iff {α β ε : Type} {read : Except ε α} {f : α → β} {e : ε} :
    read.map f = .error e ↔ read = .error e := by
  cases read with
  | error e' => simp only [Except.map, Except.error.injEq]
  | ok a => simp only [Except.map, reduceCtorEq]

theorem bind_eq_ok_iff {α β ε : Type} {read : Except ε α} {next : α → Except ε β} {b : β} :
    (read >>= next) = .ok b ↔ ∃ a, read = .ok a ∧ next a = .ok b := by
  cases read with
  | error e => simp only [bind, Except.bind, reduceCtorEq, false_and, exists_false]
  | ok a => simp only [bind, Except.bind, Except.ok.injEq, exists_eq_left']

theorem bind_eq_error_iff {α β ε : Type} {read : Except ε α} {next : α → Except ε β} {e : ε} :
    (read >>= next) = .error e ↔ read = .error e ∨ ∃ a, read = .ok a ∧ next a = .error e := by
  cases read with
  | error e' =>
    simp only [bind, Except.bind, Except.error.injEq, reduceCtorEq, false_and, exists_false,
      or_false]
  | ok a => simp only [bind, Except.bind, reduceCtorEq, Except.ok.injEq, exists_eq_left', false_or]

theorem Reader.whole_eq_ok_iff {α : Type} {read : Reader α} {cs : List Char} {a : α} :
    Reader.whole read cs = .ok a ↔ read cs = .ok (a, []) := by
  unfold Reader.whole
  cases read cs with
  | error stop => simp only [reduceCtorEq]
  | ok taken =>
    obtain ⟨value, rest⟩ := taken
    cases rest with
    | nil => simp only [Except.ok.injEq, Prod.mk.injEq, and_true]
    | cons c cs => simp only [reduceCtorEq, Except.ok.injEq, Prod.mk.injEq, and_false]

end PolicyValues
