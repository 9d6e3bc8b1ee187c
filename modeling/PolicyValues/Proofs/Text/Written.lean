import PolicyValues.Proofs.Decimal

/-!
What readers of digits accept. Each reader takes a text exactly if it begins with a run of the form
that the reader is for, and the run is then no more and no less than what was taken.
-/
namespace PolicyValues
open Text

theorem Text.eq_of_append_of_stops {p : Char → Bool} {as bs as' bs' : List Char}
    (has : ∀ c ∈ as, p c = true) (hbs : Stops p bs) (has' : ∀ c ∈ as', p c = true)
    (hbs' : Stops p bs') (h : as ++ bs = as' ++ bs') : as = as' ∧ bs = bs' := by
  have taken := congrArg (List.takeWhile p) h
  have left := congrArg (List.dropWhile p) h
  rw [takeWhile_append_of_stops has hbs, takeWhile_append_of_stops has' hbs'] at taken
  rw [dropWhile_append_of_stops has hbs, dropWhile_append_of_stops has' hbs'] at left
  exact ⟨taken, left⟩

theorem Text.stops_dropWhile (p : Char → Bool) (cs : List Char) : Stops p (cs.dropWhile p) := by
  induction cs with
  | nil => exact stops_nil p
  | cons c cs ih =>
    rw [List.dropWhile_cons]
    split
    · exact ih
    · exact stops_cons.2 (Bool.eq_false_iff.2 ‹_›)

namespace Digits

def signChars (minus : Bool) : List Char := if minus then ['-'] else []

@[ext]
structure Field (width : Nat) where
  chars : List Char
  digits : ∀ c ∈ chars, c.isDigit = true
  length_eq : chars.length = width

namespace Field

variable {width : Nat}

def value (field : Field width) : Nat := Digits.value field.chars

def zeros (width : Nat) : Field width where
  chars := List.replicate width '0'
  digits := fun c hc => by
    rw [List.eq_of_mem_replicate hc]
    rfl
  length_eq := List.length_replicate

def ofNat (n : Nat) (fits : 0 < width ∧ n < 10 ^ width) : Field width where
  chars := padded width n
  digits := isDigit_of_mem_padded
  length_eq := length_padded fits.1 fits.2

end Field

theorem low_of_isDigit {d : Char} (digit : d.isDigit = true) : 48 ≤ d.toNat := by
  simp only [Char.isDigit, Bool.and_eq_true, decide_eq_true_eq, UInt32.le_iff_toNat_le] at digit
  exact digit.1

theorem high_of_isDigit {d : Char} (digit : d.isDigit = true) : d.toNat ≤ 57 := by
  simp only [Char.isDigit, Bool.and_eq_true, decide_eq_true_eq, UInt32.le_iff_toNat_le] at digit
  exact digit.2

theorem digit_inj {c d : Char} (left : c.isDigit = true) (right : d.isDigit = true)
    (same : c.toNat - 48 = d.toNat - 48) : c = d := by
  have low := low_of_isDigit left
  have low' := low_of_isDigit right
  exact Char.toNat_inj.1 (by omega)

theorem value_singleton (d : Char) : value [d] = d.toNat - 48 := by
  simp only [value, Nat.ofDigitChars, List.foldl_cons, List.foldl_nil, Nat.mul_zero, Nat.zero_add]
  rfl

theorem value_cons (d : Char) (ds : List Char) :
    value (d :: ds) = (d.toNat - 48) * 10 ^ ds.length + value ds := by
  rw [← List.singleton_append, value_append, value_singleton]

theorem value_lt {ds : List Char} (h : ∀ c ∈ ds, c.isDigit = true) :
    value ds < 10 ^ ds.length := by
  induction ds with
  | nil => decide
  | cons d ds ih =>
    have rest := ih fun c hc => h c (List.mem_cons_of_mem _ hc)
    have small := high_of_isDigit (h d List.mem_cons_self)
    have front : (d.toNat - 48) * 10 ^ ds.length ≤ 9 * 10 ^ ds.length :=
      Nat.mul_le_mul_right _ (by omega)
    rw [value_cons, List.length_cons, Nat.pow_succ]
    omega

theorem pow_le_value {ds : List Char} (digits : ∀ c ∈ ds, c.isDigit = true)
    (leading : ds.head? ≠ some '0') (some_digit : ds ≠ []) : 10 ^ (ds.length - 1) ≤ value ds := by
  obtain ⟨d, more, rfl⟩ := List.exists_cons_of_ne_nil some_digit
  have low := low_of_isDigit (digits d List.mem_cons_self)
  have not_zero : d.toNat ≠ 48 := by
    intro zero
    exact leading (congrArg some (Char.toNat_inj.1 zero))
  have front : 1 * 10 ^ more.length ≤ (d.toNat - 48) * 10 ^ more.length :=
    Nat.mul_le_mul_right _ (by omega)
  rw [value_cons, List.length_cons, Nat.add_sub_cancel]
  omega

theorem eq_of_value_eq {as bs : List Char} (left : ∀ c ∈ as, c.isDigit = true)
    (right : ∀ c ∈ bs, c.isDigit = true) (length : as.length = bs.length)
    (same : value as = value bs) : as = bs := by
  induction as generalizing bs with
  | nil => exact (List.length_eq_zero_iff.1 length.symm).symm
  | cons a as ih =>
    cases bs with
    | nil => exact absurd length (Nat.succ_ne_zero _)
    | cons b bs =>
      rw [List.forall_mem_cons] at left right
      rw [List.length_cons, List.length_cons, Nat.add_right_cancel_iff] at length
      have below := value_lt left.2
      have below' := value_lt right.2
      rw [length] at below
      rw [value_cons, value_cons, length] at same
      -- The first digit is the quotient by the unit of the rest, and the rest is the remainder.
      have first : a.toNat - 48 = b.toNat - 48 := by
        have quotient := congrArg (· / 10 ^ bs.length) same
        have unit : 0 < 10 ^ bs.length := Nat.zero_lt_of_lt below
        simpa only [Nat.add_comm (_ * 10 ^ bs.length), Nat.add_mul_div_right _ _ unit,
          Nat.div_eq_of_lt below, Nat.div_eq_of_lt below', Nat.zero_add] using quotient
      rw [first, Nat.add_left_cancel_iff] at same
      rw [ih left.2 right.2 length same, digit_inj left.1 right.1 first]

theorem ofNat_value {ds : List Char} (digits : ∀ c ∈ ds, c.isDigit = true) (some_digit : ds ≠ [])
    (leading : ds.head? ≠ some '0') : ofNat (value ds) = ds := by
  have low := pow_le_value digits leading some_digit
  have high := value_lt digits
  have positive := List.length_pos_iff.2 some_digit
  have printed := List.length_pos_iff.2 (ofNat_ne_nil (value ds))
  have most := (length_ofNat_le_iff positive).2 high
  have least : ¬ (ofNat (value ds)).length ≤ ds.length - 1 := by
    intro short
    exact Nat.not_lt.2 low ((length_ofNat_le_iff (by omega)).1 short)
  exact eq_of_value_eq isDigit_of_mem_ofNat digits (by omega) (value_ofNat _)

theorem padded_value {ds : List Char} (digits : ∀ c ∈ ds, c.isDigit = true) (some_digit : ds ≠ []) :
    padded ds.length (value ds) = ds :=
  eq_of_value_eq isDigit_of_mem_padded digits
    (length_padded (List.length_pos_iff.2 some_digit) (value_lt digits)) (value_padded _ _)

theorem Field.value_lt {width : Nat} (field : Field width) : field.value < 10 ^ width := by
  have bound := Digits.value_lt field.digits
  rwa [field.length_eq] at bound

theorem span_eq_iff {cs ds rest : List Char} :
    span cs = (ds, rest) ↔
      cs = ds ++ rest ∧ (∀ c ∈ ds, c.isDigit = true) ∧ Stops Char.isDigit rest := by
  constructor
  · intro h
    have split := span_append cs
    rw [h] at split
    simp only [span, Prod.mk.injEq] at h
    obtain ⟨rfl, rfl⟩ := h
    exact ⟨split.symm, List.all_eq_true.1 List.all_takeWhile, stops_dropWhile _ _⟩
  · rintro ⟨rfl, digits, stops⟩
    exact span_append_of_stops digits stops

theorem fixed?_eq_some_iff_small {width n : Nat} {cs rest : List Char} :
    fixed? width cs = some (n, rest) ↔
      ∃ field : Field width, cs = field.chars ++ rest ∧ field.value < 2 ^ 32 ∧ n = field.value := by
  simp only [fixed?_eq]
  constructor
  · intro h
    split at h
    · rename_i taken
      simp only [Option.some.injEq, Prod.mk.injEq] at h
      obtain ⟨rfl, rfl⟩ := h
      exact ⟨⟨cs.take width, List.all_eq_true.1 taken.2.1, taken.1⟩,
        (List.take_append_drop width cs).symm, taken.2.2, rfl⟩
    · simp only [reduceCtorEq] at h
  · rintro ⟨field, rfl, small, rfl⟩
    have all : field.chars.all Char.isDigit = true := List.all_eq_true.2 field.digits
    rw [List.take_left' field.length_eq, List.drop_left' field.length_eq]
    exact if_pos ⟨field.length_eq, all, small⟩

theorem fixed?_eq_some_iff {width n : Nat} {cs rest : List Char} (narrow : width ≤ 9) :
    fixed? width cs = some (n, rest) ↔
      ∃ field : Field width, cs = field.chars ++ rest ∧ n = field.value := by
  have small (field : Field width) : field.value < 2 ^ 32 := calc
    field.value < 10 ^ width := field.value_lt
    _ ≤ 10 ^ 9 := Nat.pow_le_pow_right (by decide) narrow
    _ < 2 ^ 32 := by decide
  simp only [fixed?_eq_some_iff_small, small, true_and]

theorem exists_signChars (cs : List Char) :
    ∃ (minus : Bool) (more : List Char), cs = signChars minus ++ more ∧ signed? cs =
      let (ds, rest) := span more
      if ds = [] ∨ 2 ^ 63 ≤ value ds then none
      else some ⟨if minus then -(value ds : Int) else value ds, ds.length, rest⟩ := by
  by_cases minus : cs.head? = some '-'
  · obtain ⟨more, rfl⟩ : ∃ more, cs = '-' :: more := by
      cases cs with
      | nil => simp only [List.head?_nil, reduceCtorEq] at minus
      | cons c more =>
        rw [List.head?_cons, Option.some.injEq] at minus
        exact ⟨more, by rw [minus]⟩
    refine ⟨true, more, rfl, ?_⟩
    simp only [signed?_eq, List.head?_cons, if_true, List.drop_one, List.tail_cons]
  · refine ⟨false, cs, rfl, ?_⟩
    simp only [signed?_eq, minus, if_false, Bool.false_eq_true]

theorem signed?_eq_some_iff {cs : List Char} {run : SignedRun} :
    signed? cs = some run ↔
      ∃ (minus : Bool) (ds : List Char), cs = signChars minus ++ ds ++ run.rest ∧ ds ≠ [] ∧
        (∀ c ∈ ds, c.isDigit = true) ∧ Stops Char.isDigit run.rest ∧ value ds < 2 ^ 63 ∧
        run.value = (if minus then -(value ds : Int) else value ds) ∧ run.length = ds.length := by
  constructor
  · intro h
    obtain ⟨minus, more, rfl, eq⟩ := exists_signChars cs
    rw [eq] at h
    generalize split : span more = taken at h
    obtain ⟨ds, rest⟩ := taken
    obtain ⟨rfl, digits, stops⟩ := span_eq_iff.1 split
    simp only at h
    split at h
    · simp only [reduceCtorEq] at h
    · rename_i fits
      rw [not_or, Nat.not_le] at fits
      rw [← Option.some.inj h]
      exact ⟨minus, ds, (List.append_assoc _ _ _).symm, fits.1, digits, stops, fits.2, rfl, rfl⟩
  · obtain ⟨number, length, rest⟩ := run
    rintro ⟨minus, ds, rfl, some_digit, digits, stops, small, rfl, rfl⟩
    cases minus with
    | true => exact signed?_of_minus some_digit digits small stops
    | false => exact signed?_of_digits some_digit digits small stops

structure Written.Lexical (w : Written) : Prop where
  whole_ne : w.whole ≠ []
  whole : ∀ c ∈ w.whole, c.isDigit = true
  fraction : ∀ c ∈ w.fraction, c.isDigit = true

theorem unsigned?_chars {w : Written} (h : w.Lexical) {rest : List Char}
    (digit : Stops Char.isDigit rest) (point : rest.head? ≠ some '.') :
    unsigned? (w.chars ++ rest) = some (w, rest) := by
  obtain ⟨whole, fraction⟩ := w
  obtain ⟨whole_ne, whole_digits, fraction_digits⟩ := h
  simp only at whole_ne whole_digits fraction_digits
  by_cases integral : fraction = []
  · simp only [Written.chars, integral, if_true, unsigned?,
      span_append_of_stops whole_digits digit, whole_ne, if_false,
      Decimal.fractionAfter_of_stops _ point]
  · have behind : Stops Char.isDigit ('.' :: (fraction ++ rest)) := stops_cons.2 rfl
    simp only [Written.chars, integral, if_false, List.append_assoc, List.cons_append, unsigned?,
      span_append_of_stops whole_digits behind, whole_ne, fractionAfter,
      span_append_of_stops fraction_digits digit]

theorem lexical_of_unsigned? {cs rest : List Char} {w : Written}
    (h : unsigned? cs = some (w, rest)) : w.Lexical ∧ cs = w.chars ++ rest := by
  simp only [unsigned?] at h
  generalize split : span cs = taken at h
  obtain ⟨ds, behind⟩ := taken
  obtain ⟨rfl, digits, stops⟩ := span_eq_iff.1 split
  simp only at h
  split at h
  · simp only [reduceCtorEq] at h
  rename_i some_digit
  rw [Option.some.injEq] at h
  unfold fractionAfter at h
  -- A point belongs to the number only with a digit behind it.
  split at h
  · rename_i after
    generalize fraction_split : span after = fraction at h
    obtain ⟨fs, last⟩ := fraction
    obtain ⟨rfl, fraction_digits, _⟩ := span_eq_iff.1 fraction_split
    simp only at h
    split at h
    · simp only [Prod.mk.injEq] at h
      obtain ⟨rfl, rfl⟩ := h
      exact ⟨⟨some_digit, digits, fun _ hc => absurd hc List.not_mem_nil⟩, rfl⟩
    · rename_i some_fraction
      simp only [Prod.mk.injEq] at h
      obtain ⟨rfl, rfl⟩ := h
      refine ⟨⟨some_digit, digits, fraction_digits⟩, ?_⟩
      rw [Written.chars, if_neg some_fraction, List.append_assoc, List.cons_append]
  · simp only [Prod.mk.injEq] at h
    obtain ⟨rfl, rfl⟩ := h
    exact ⟨⟨some_digit, digits, fun _ hc => absurd hc List.not_mem_nil⟩, rfl⟩

theorem Written.Lexical.chars_injective {v w : Written} (left : v.Lexical) (right : w.Lexical)
    (same : v.chars = w.chars) : v = w := by
  have stops := stops_nil Char.isDigit
  have read := unsigned?_chars left stops (by decide)
  rw [same, unsigned?_chars right stops (by decide)] at read
  exact (Prod.mk.inj (Option.some.inj read)).1.symm

end Digits

namespace Reader

theorem mark_eq_ok_iff {expected : Char} {place : String} {cs rest : List Char} {u : Unit} :
    mark expected place cs = .ok (u, rest) ↔ cs = expected :: rest := by
  cases cs with
  | nil => simp only [mark, reduceCtorEq]
  | cons c cs =>
    by_cases same : c = expected
    · simp only [mark, same, if_true, Except.ok.injEq, Prod.mk.injEq, true_and, List.cons.injEq]
    · simp only [mark, same, if_false, reduceCtorEq, List.cons.injEq, false_and]

theorem digits_eq_ok_iff {width n : Nat} {field : String} {cs rest : List Char}
    (narrow : width ≤ 9) :
    digits width field cs = .ok (n, rest) ↔
      ∃ field : Digits.Field width, cs = field.chars ++ rest ∧ n = field.value := by
  rw [← Digits.fixed?_eq_some_iff narrow, digits]
  cases Digits.fixed? width cs with
  | none => simp only [reduceCtorEq]
  | some taken => simp only [Except.ok.injEq, Option.some.injEq]

theorem signed_eq_ok_iff {least : Nat} {field : String} {cs rest : List Char} {n : Int}
    (positive : 0 < least) :
    signed least field cs = .ok (n, rest) ↔
      ∃ (minus : Bool) (ds : List Char), cs = Digits.signChars minus ++ ds ++ rest ∧
        (∀ c ∈ ds, c.isDigit = true) ∧ least ≤ ds.length ∧ Stops Char.isDigit rest ∧
        Digits.value ds < 2 ^ 63 ∧
        n = if minus then -(Digits.value ds : Int) else Digits.value ds := by
  constructor
  · intro h
    unfold signed at h
    split at h
    · simp only [reduceCtorEq] at h
    rename_i run taken
    split at h
    · simp only [reduceCtorEq] at h
    rename_i enough
    obtain ⟨minus, ds, rfl, _, digits, stops, small, number, length⟩ :=
      Digits.signed?_eq_some_iff.1 taken
    simp only [Except.ok.injEq, Prod.mk.injEq] at h
    obtain ⟨rfl, rfl⟩ := h
    rw [length, Nat.not_lt] at enough
    exact ⟨minus, ds, rfl, digits, enough, stops, small, number⟩
  · rintro ⟨minus, ds, rfl, digits, enough, stops, small, rfl⟩
    have some_digit : ds ≠ [] := List.ne_nil_of_length_pos (Nat.lt_of_lt_of_le positive enough)
    have taken : Digits.signed? (Digits.signChars minus ++ ds ++ rest) =
        some ⟨if minus then -(Digits.value ds : Int) else Digits.value ds, ds.length, rest⟩ :=
      Digits.signed?_eq_some_iff.2 ⟨minus, ds, rfl, some_digit, digits, stops, small, rfl, rfl⟩
    simp only [signed, taken, Nat.not_lt.2 enough, if_false]

end Reader

end PolicyValues
