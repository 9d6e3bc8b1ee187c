import PolicyValues.Proofs.Decimal.Cut
import PolicyValues.Proofs.Duration.Totals

/-!
Totals of seconds as whole milliseconds, cut toward zero. A thousand totals have to be a decimal
before anything is cut off. So a total that has too many milliseconds for 64 bits is known to lie
outside only where they are below 2 ^ 96.
-/
namespace PolicyValues

theorem fits_int64_iff {z : ℤ} :
    (∃ m : Int64, m.toInt = z) ↔ -2 ^ 63 ≤ z ∧ z < 2 ^ 63 := by
  constructor
  · rintro ⟨m, rfl⟩
    exact ⟨m.le_toInt, m.toInt_lt⟩
  · rintro ⟨low, high⟩
    exact ⟨Int64.ofInt z, Int64.toInt_ofInt_of_le low high⟩

namespace DayTimeDuration
open Decimal

variable (d : DayTimeDuration)

def wholeMillis : ℤ := towardZero (1000 * d.totalSeconds.toRat)

theorem totalMillis_eq :
    d.totalMillis =
      if 2 ^ 96 ≤ 1000 * |d.totalSeconds.toRat| then .unrepresentable
      else if -2 ^ 63 ≤ d.wholeMillis ∧ d.wholeMillis < 2 ^ 63 then
        .exact (Int64.ofInt d.wholeMillis)
      else .outside := by
  rw [totalMillis, wholeMillis, towardZero_thousand_toRat]
  exact if_congr (thousandfold_iff _) rfl rfl

theorem abs_wholeMillis : |d.wholeMillis| = ⌊1000 * |d.totalSeconds.toRat|⌋ := by
  rw [wholeMillis, towardZero_thousand_toRat, floor_thousand_abs_toRat]
  split
  · rw [abs_neg, Nat.abs_cast]
  · rw [Nat.abs_cast]

variable {d}

theorem not_fits_of_unrepresentable (large : 2 ^ 96 ≤ 1000 * |d.totalSeconds.toRat|) :
    ¬ (-2 ^ 63 ≤ d.wholeMillis ∧ d.wholeMillis < 2 ^ 63) := by
  have size : 2 ^ 96 ≤ |d.wholeMillis| := by
    rw [abs_wholeMillis, Int.le_floor]
    exact_mod_cast large
  rw [le_abs] at size
  omega

/-- The milliseconds are counted exactly where they fit into 64 bits. Where they do not, there is no
answer from 2 ^ 96 on. -/
theorem millis_counted_iff_fit (d : DayTimeDuration) :
    (∀ m : Int64, d.totalMillis = .exact m ↔ m.toInt = d.wholeMillis) ∧
      (d.totalMillis = .outside ↔
        (∀ m : Int64, m.toInt ≠ d.wholeMillis) ∧ 1000 * |d.totalSeconds.toRat| < 2 ^ 96) ∧
      (d.totalMillis = .unrepresentable ↔ 2 ^ 96 ≤ 1000 * |d.totalSeconds.toRat|) := by
  rw [totalMillis_eq]
  by_cases large : 2 ^ 96 ≤ 1000 * |d.totalSeconds.toRat|
  · have none (m : Int64) : m.toInt ≠ d.wholeMillis := fun h =>
      not_fits_of_unrepresentable large (fits_int64_iff.1 ⟨m, h⟩)
    rw [if_pos large]
    exact ⟨fun m => iff_of_false nofun (none m),
      iff_of_false nofun fun h => not_le.2 h.2 large, iff_of_true rfl large⟩
  · rw [if_neg large]
    by_cases fits : -2 ^ 63 ≤ d.wholeMillis ∧ d.wholeMillis < 2 ^ 63
    · have value : (Int64.ofInt d.wholeMillis).toInt = d.wholeMillis :=
        Int64.toInt_ofInt_of_le fits.1 fits.2
      rw [if_pos fits]
      refine ⟨fun m => ?_, iff_of_false nofun fun h => h.1 _ value, iff_of_false nofun large⟩
      rw [Millis.exact.injEq, ← Int64.toInt_inj, value, eq_comm]
    · have none (m : Int64) : m.toInt ≠ d.wholeMillis := fun h =>
        fits (fits_int64_iff.1 ⟨m, h⟩)
      rw [if_neg fits]
      exact ⟨fun m => iff_of_false nofun (none m), iff_of_true rfl ⟨none, not_le.1 large⟩,
        iff_of_false nofun large⟩

theorem thousand_totals_not_decimal :
    ∃ d, parse "PT79228162514264337593543951S" = .ok d ∧
      (∀ m : Int64, m.toInt ≠ d.wholeMillis) ∧ d.totalMillis ≠ .outside := by
  let u : Duration :=
    .signed false { seconds := ⟨false, 79228162514264337593543951, 0, by decide, by decide⟩ }
  let d : DayTimeDuration := ⟨u, ⟨false, 79228162514264337593543951, 0, by decide, by decide⟩⟩
  have shown : u.text = "PT79228162514264337593543951S" := by decide +kernel
  have total : ofDuration u = .ok d := by decide +kernel
  have read : parse "PT79228162514264337593543951S" = .ok d := by
    rw [← shown, parse_duration_text rfl, total]
  have millis : d.wholeMillis = 79228162514264337593543951000 := by
    rw [wholeMillis, towardZero_thousand_toRat]
    decide +kernel
  refine ⟨d, read, fun m => ?_, by decide +kernel⟩
  have high := m.toInt_lt
  rw [millis]
  omega

example :
    let total (mantissa scale : ℕ) (h : mantissa < 2 ^ 96) (h' : scale ≤ 28) : DayTimeDuration :=
      ⟨.zero, ⟨true, mantissa, scale, h, h'⟩⟩
    (total (2 ^ 96 - 1) 3 (by decide) (by decide)).totalMillis = .outside ∧
      (total 12345678 4 (by decide) (by decide)).totalMillis = .exact (-1234567) := by
  decide +kernel

end DayTimeDuration

end PolicyValues
