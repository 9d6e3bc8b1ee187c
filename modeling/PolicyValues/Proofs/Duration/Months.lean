import PolicyValues.Proofs.Duration.Canonical
import PolicyValues.Proofs.Duration.Totals

/-!
Totals of months against the texts that they are read from. The size of a total is measured before
it gets its sign, so every total of 64 bits is read but the least, which has no counterpart above
zero; a total that was counted and not read may still be that one.
-/
namespace PolicyValues

theorem Magnitudes.hasDayTime_eq_false_iff_amount (size : Magnitudes) :
    size.hasDayTime = false ↔ ∀ c, c ≠ .years → c ≠ .months → size.amount c = 0 := by
  rw [hasDayTime, Bool.or_eq_false_iff, hasTime_eq_false_iff_amount, bne_eq_false_iff_eq,
    ← count_eq_zero_iff, Duration.Component.forall_iff]
  simp only [ne_eq, not_true_eq_false, false_implies, reduceCtorEq, not_false_eq_true,
    forall_const, true_and]
  rfl

namespace Duration

namespace WrittenDuration

def months (w : WrittenDuration) : ℚ :=
  (if w.minus then -1 else 1) * (12 * w.amount .years + w.amount .months)

theorem Denotes.months_eq {w : WrittenDuration} {u : Duration} (h : w.Denotes u) :
    w.months = (u.sign * (u.years.toNat * 12 + u.months.toNat : ℕ) : ℤ) := by
  have years : (u.years.toNat : ℚ) = w.amount .years := h.amount .years
  have months : (u.months.toNat : ℚ) = w.amount .months := h.amount .months
  have sign : u.negative = true ↔ w.minus = true ∧ ∃ c, w.amount c ≠ 0 := h.negative
  rw [WrittenDuration.months, Duration.sign]
  push_cast
  rw [years, months, mul_comm _ (12 : ℚ)]
  by_cases some_size : ∃ c, w.amount c ≠ 0
  · have same : u.negative = w.minus := by
      rw [Bool.eq_iff_iff, sign, and_iff_left some_size]
    rw [same]
  · push Not at some_size
    rw [some_size .years, some_size .months, mul_zero, add_zero, mul_zero, mul_zero]

theorem Denotes.abs_months {w : WrittenDuration} {u : Duration} (h : w.Denotes u) :
    |w.months| = (u.years.toNat * 12 + u.months.toNat : ℕ) := by
  have unit : |u.sign| = 1 := by
    rw [Duration.sign]
    cases u.negative <;> rfl
  rw [h.months_eq, ← Int.cast_abs, abs_mul, unit, one_mul, Nat.abs_cast, Int.cast_natCast]

theorem InGrammar.parse {w : WrittenDuration} {text : String} (h : w.InGrammar)
    (same : text.toList = w.chars) : ∃ u, Duration.parse text = .ok u ∧ w.Denotes u := by
  obtain ⟨u, read, denotes⟩ := h.read
  refine ⟨u, ?_, denotes⟩
  rw [Duration.parse, same, mapError_eq_ok_iff, read]

end WrittenDuration

end Duration

namespace YearMonthDuration
open Duration

theorem parse_of_yearMonth {text : String} {u : Duration} (read : Duration.parse text = .ok u)
    (yearMonth : u.hasDayTime = false) : parse text = ofDuration u := by
  simp only [parse, read, bind, Except.bind, yearMonth, Bool.false_eq_true, if_false]

theorem ofDuration_of_yearMonth {u : Duration} (yearMonth : u.hasDayTime = false) :
    ofDuration u = u.totalMonths.map (⟨u, ·⟩) := by
  rw [ofDuration, yearMonth]
  rfl

theorem ofDuration_ok_or_error {u : Duration} (yearMonth : u.hasDayTime = false) :
    (u.years.toNat * 12 + u.months.toNat < 2 ^ 63 ∧
      ∃ d, ofDuration u = .ok d ∧ d.duration = u ∧
        d.totalMonths.toInt = u.sign * (u.years.toNat * 12 + u.months.toNat : ℕ)) ∨
    (2 ^ 63 ≤ u.years.toNat * 12 + u.months.toNat ∧
      ofDuration u = .error (.outOfRange .duration .totalMonths)) := by
  rw [ofDuration_of_yearMonth yearMonth]
  cases outcome : u.totalMonths with
  | ok months =>
    obtain ⟨fits, value⟩ := toInt_of_totalMonths outcome
    exact .inl ⟨fits, _, rfl, rfl, value⟩
  | error fault =>
    unfold Duration.totalMonths at outcome
    simp only at outcome
    split at outcome
    · simp only [reduceCtorEq] at outcome
    · rename_i large
      exact .inr ⟨Nat.not_lt.1 large, congrArg Except.error (Except.error.inj outcome).symm⟩

theorem readable_ofTotalMonths {n : Int64} (more : n ≠ Int64.minValue) :
    (ofTotalMonths n).Readable := by
  have low := n.le_toInt
  have high := n.toInt_lt
  have least : n.toInt ≠ -2 ^ 63 := fun h => more (Int64.toInt_inj.1 h)
  have total : (ofTotalMonths n).totalMonths = n := rfl
  rw [Readable, total]
  omega

theorem parse_text_least : parse (ofTotalMonths Int64.minValue).text =
    .error (.outOfRange .duration .totalMonths) := by
  rw [text, parse_of_yearMonth (Duration.parse_text _) rfl]
  decide +kernel

/-- A text that has only years and months, or others of no size, is read as the months that are
written unless they are 2 ^ 63 or more. So is the text of a total, unless it is the least. -/
theorem months_read_unless_least (n : Int64) :
    parse (ofTotalMonths n).text =
        (if n = Int64.minValue then .error (.outOfRange .duration .totalMonths)
          else .ok (ofTotalMonths n)) ∧
    ∀ (text : String) (w : WrittenDuration), text.toList = w.chars → w.InGrammar →
      (∀ c, c ≠ .years → c ≠ .months → w.amount c = 0) →
      (|w.months| < 2 ^ 63 ∧
        ∃ d, parse text = .ok d ∧ w.Denotes d.duration ∧ d.totalMonths.toInt = w.months) ∨
      (2 ^ 63 ≤ |w.months| ∧ parse text = .error (.outOfRange .duration .totalMonths)) := by
  constructor
  · split
    · rename_i least
      subst least
      exact parse_text_least
    · rename_i more
      exact (readable_ofTotalMonths more).parse_text
  · intro text w same inGrammar yearMonth
    obtain ⟨u, read, denotes⟩ := inGrammar.parse same
    have yearMonth' : u.hasDayTime = false := by
      rw [u.hasDayTime_eq_false_iff_amount]
      simpa only [denotes.amount] using yearMonth
    rw [parse_of_yearMonth read yearMonth', denotes.abs_months]
    rcases ofDuration_ok_or_error yearMonth' with ⟨fits, d, total, rfl, value⟩ | ⟨large, refused⟩
    · refine .inl ⟨by exact_mod_cast fits, d, total, denotes, ?_⟩
      rw [denotes.months_eq, value]
    · exact .inr ⟨by exact_mod_cast large, refused⟩

theorem least_but_one_is_read :
    let n : Int64 := -9223372036854775807
    let u : Duration := .signed true { years := 768614336404564650, months := 7 }
    n ≠ Int64.minValue ∧ parse (ofTotalMonths n).text = .ok (ofTotalMonths n) ∧
      u.text = "-P768614336404564650Y7M" ∧ u.text.toList = u.written.chars ∧ u.written.InGrammar ∧
      (∀ c, c ≠ .years → c ≠ .months → u.written.amount c = 0) ∧
      ∃ d, parse u.text = .ok d ∧ d.totalMonths = n := by
  intro n u
  have more : n ≠ Int64.minValue := by decide
  obtain ⟨back, written⟩ := months_read_unless_least n
  rw [if_neg more] at back
  have same := u.toList_text
  have inGrammar := u.inGrammar_written
  have denotes := WrittenDuration.Denotes.of_text inGrammar same
  have dayTime : u.hasDayTime = false := by decide +kernel
  have yearMonth : ∀ c, c ≠ .years → c ≠ .months → u.written.amount c = 0 := by
    simpa only [denotes.amount] using u.hasDayTime_eq_false_iff_amount.1 dayTime
  have total : u.sign * (u.years.toNat * 12 + u.months.toNat : ℕ) = -9223372036854775807 := by
    decide +kernel
  have months := denotes.months_eq
  rw [total] at months
  refine ⟨more, back, by decide +kernel, same, inGrammar, yearMonth, ?_⟩
  rcases written _ u.written same inGrammar yearMonth with ⟨_, d, read, _, value⟩ | ⟨large, _⟩
  · refine ⟨d, read, Int64.toInt_inj.1 ?_⟩
    rw [months, Int.cast_inj] at value
    rw [value]
    rfl
  · rw [months] at large
    norm_num at large

theorem least_months_refused :
    (ofTotalMonths Int64.minValue).totalMonths.toInt = -2 ^ 63 ∧
      (ofTotalMonths Int64.minValue).text = "-P768614336404564650Y8M" ∧
      parse "-P768614336404564650Y8M" = .error (.outOfRange .duration .totalMonths) := by
  have shown : (ofTotalMonths Int64.minValue).text = "-P768614336404564650Y8M" := by
    decide +kernel
  refine ⟨by decide, shown, ?_⟩
  rw [← shown]
  exact parse_text_least

end YearMonthDuration

end PolicyValues
