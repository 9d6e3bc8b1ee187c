import Mathlib.Tactic.Positivity
import Mathlib.Tactic.Ring
import PolicyValues.Proofs.Decimal.Rational
import PolicyValues.Proofs.Duration.Totals

/-!
Day-time durations against their lengths as written. A total is the length itself exactly where the
whole units and the places of the seconds fit one mantissa. The others are rounded: two lengths may
then have one total, but no length passes another.
-/
namespace PolicyValues

namespace Duration

def length (u : Duration) : ℚ :=
  u.sign * (86400 * u.days.toNat + 3600 * u.hours.toNat + 60 * u.minutes.toNat + u.seconds.toRat)

def size (u : Duration) : ℕ := u.wholeUnits * 10 ^ u.seconds.scale + u.seconds.mantissa

def KeepsPlaces (u : Duration) : Prop := u.size < 2 ^ 96

instance (u : Duration) : Decidable u.KeepsPlaces := inferInstanceAs (Decidable (_ < _))

def count (u : Duration) : ℕ := u.size * 10 ^ (28 - u.seconds.scale)

theorem length_eq (u : Duration) : u.length = u.sign * (u.size / 10 ^ u.seconds.scale) := by
  have unit : (10 : ℚ) ^ u.seconds.scale ≠ 0 := by positivity
  rw [length, size, wholeUnits, Decimal.toRat, u.plain.positive]
  push_cast
  field_simp

theorem length_eq_count (u : Duration) : u.length = (u.sign * u.count : ℤ) / 10 ^ 28 := by
  have places : (10 : ℚ) ^ 28 = 10 ^ (28 - u.seconds.scale) * 10 ^ u.seconds.scale := by
    rw [← pow_add, Nat.sub_add_cancel u.seconds.scale_le]
  rw [length_eq, count, places]
  push_cast
  field_simp

theorem length_le_length_iff {u v : Duration} :
    u.length ≤ v.length ↔ u.sign * u.count ≤ v.sign * v.count := by
  have unit : (0 : ℚ) < 10 ^ 28 := by positivity
  rw [length_eq_count, length_eq_count, div_le_div_iff_of_pos_right unit, Int.cast_le]

theorem sign_mul_inj (u : Duration) (m n : ℕ) : u.sign * m = u.sign * n ↔ m = n := by
  rw [sign]
  cases u.negative <;> simp

theorem abs_length (u : Duration) : |u.length| = u.size / 10 ^ u.seconds.scale := by
  have size : (0 : ℚ) ≤ u.size / 10 ^ u.seconds.scale := by positivity
  rw [length_eq, sign]
  cases u.negative <;> simp [abs_of_nonneg size]

theorem size_mod_ne (u : Duration) (fractional : u.seconds.scale ≠ 0) : u.size % 10 ≠ 0 := by
  have last := Decimal.mod_ne_of_strip u.plain.stripped fractional
  obtain ⟨less, h⟩ := Nat.exists_eq_succ_of_ne_zero fractional
  rw [size, h, Nat.pow_succ, ← Nat.mul_assoc, Nat.mul_add_mod_self_right]
  exact last

theorem totalSeconds_eq_fit? (u : Duration) :
    u.totalSeconds =
      match Decimal.fit? false u.size u.seconds.scale u.seconds.scale u.seconds.scale_le with
      | some total => .ok (if u.negative then total.neg else total)
      | none => .error (.outOfRange .duration .totalSeconds) := by
  rw [totalSeconds_eq, Decimal.add?_eq_fit? rfl rfl u.plain.positive]
  rfl

end Duration

namespace DayTimeDuration
open Duration Decimal

theorem ofDuration_of_dayTime {u : Duration} (dayTime : u.hasYearMonth = false) :
    ofDuration u = u.totalSeconds.map fun total => ⟨u, total.normalize⟩ := by
  rw [ofDuration, dayTime]
  rfl

section
variable {u v : Duration} {d e : DayTimeDuration}

theorem ofDuration_eq_ok_iff (dayTime : u.hasYearMonth = false) :
    ofDuration u = .ok d ↔
      ∃ total, fit? false u.size u.seconds.scale u.seconds.scale u.seconds.scale_le = some total ∧
        ⟨u, (if u.negative then total.neg else total).normalize⟩ = d := by
  rw [ofDuration_of_dayTime dayTime, totalSeconds_eq_fit?]
  cases fit? false u.size u.seconds.scale u.seconds.scale u.seconds.scale_le <;> simp [Except.map]

theorem ofDuration_eq_error_iff (dayTime : u.hasYearMonth = false) {fault : ValueError} :
    ofDuration u = .error fault ↔
      fault = .outOfRange .duration .totalSeconds ∧ 2 ^ 96 - 1 / 2 ≤ |u.length| := by
  have unit : (0 : ℚ) < 10 ^ u.seconds.scale := by positivity
  have long : 2 ^ 96 - 1 / 2 ≤ |u.length| ↔
      fit? false u.size u.seconds.scale u.seconds.scale u.seconds.scale_le = none := by
    rw [fit?_eq_none_iff, le_divHalfEven_iff (by decide) (by decide) _ (by positivity), abs_length,
      le_div_iff₀ unit, ← Nat.cast_le (α := ℚ)]
    push_cast
    constructor <;> intro h <;> linarith
  rw [long, ofDuration_of_dayTime dayTime, totalSeconds_eq_fit?]
  cases fit? false u.size u.seconds.scale u.seconds.scale u.seconds.scale_le with
  | none => simp [Except.map, eq_comm]
  | some total => simp [Except.map]

theorem toRat_of_ofDuration (h : ofDuration u = .ok d) :
    ∃ total : Decimal, total.Rounds u.count ∧
      d.totalSeconds.toRat = (u.sign * total.count : ℤ) / 10 ^ 28 ∧
      (total.count = u.count ↔ u.KeepsPlaces) := by
  obtain ⟨total, fitted, rfl⟩ := (ofDuration_eq_ok_iff (ofDuration_eq_ok h).1).1 h
  refine ⟨total, rounds_of_fit? fitted, ?_, count_eq_iff_of_fit? fitted u.size_mod_ne⟩
  have positive := (fit?_eq_some (Nat.le_refl _) fitted).1
  have value : total.toRat = total.count / 10 ^ 28 := by
    rw [toRat_eq_count, positive]
    simp
  simp only [toRat_normalize, sign]
  cases u.negative with
  | false => simp [value]
  | true => simp [toRat_neg, value, neg_div]

theorem toRat_eq_length_iff (h : ofDuration u = .ok d) :
    d.totalSeconds.toRat = u.length ↔ u.KeepsPlaces := by
  obtain ⟨total, _, value, kept⟩ := toRat_of_ofDuration h
  rw [← kept, value, length_eq_count, div_left_inj' (by positivity), Int.cast_inj, sign_mul_inj]

theorem toRat_le_of_length_le (hd : ofDuration u = .ok d) (he : ofDuration v = .ok e)
    (le : u.length ≤ v.length) : d.totalSeconds.toRat ≤ e.totalSeconds.toRat := by
  have unit : (0 : ℚ) < 10 ^ 28 := by positivity
  obtain ⟨total, rounds, value, _⟩ := toRat_of_ofDuration hd
  obtain ⟨total', rounds', value', _⟩ := toRat_of_ofDuration he
  rw [length_le_length_iff] at le
  rw [value, value', div_le_div_iff_of_pos_right unit, Int.cast_le]
  simp only [sign] at le ⊢
  cases below : u.negative <;> cases below' : v.negative <;>
    simp only [below, below', Bool.false_eq_true, if_true, if_false] at le ⊢
  · have := rounds.count_mono rounds' (by omega)
    omega
  · have empty : u.count = 0 ∧ v.count = 0 := by omega
    rw [empty.1] at rounds
    rw [empty.2] at rounds'
    rw [rounds.count_zero, rounds'.count_zero]
    decide
  · omega
  · have := rounds'.count_mono rounds (by omega)
    omega

theorem equal_iff_toRat : d.Equal e ↔ d.totalSeconds.toRat = e.totalSeconds.toRat :=
  Decimal.equal_iff_toRat

theorem compare_eq_cmp_toRat (d e : DayTimeDuration) :
    d.compare e = cmp d.totalSeconds.toRat e.totalSeconds.toRat :=
  Decimal.compare_eq_cmp_toRat _ _

theorem equal_iff_totalSeconds (hd : ofDuration u = .ok d) (he : ofDuration v = .ok e) :
    d.Equal e ↔ d.totalSeconds = e.totalSeconds := by
  rw [equal_iff_toRat]
  constructor
  · exact (ofDuration_eq_ok hd).2.2.eq_of_toRat (ofDuration_eq_ok he).2.2
  · intro same
    rw [same]

end

/-- A duration without years and months is refused only where the nearest whole second has no
decimal, and its total is the length as written exactly where the places fit. Order and equality of
two totals are those of such lengths; of other lengths none passes another, and equal ones stay
equal. -/
theorem total_eq_length_iff_keepsPlaces (u v : Duration) (dayTime : u.hasYearMonth = false) :
    ((ofDuration u = .error (.outOfRange .duration .totalSeconds) ∧ 2 ^ 96 - 1 / 2 ≤ |u.length|) ∨
      |u.length| < 2 ^ 96 - 1 / 2 ∧
        ∃ d, ofDuration u = .ok d ∧ (d.totalSeconds.toRat = u.length ↔ u.KeepsPlaces)) ∧
    ∀ d e : DayTimeDuration, ofDuration u = .ok d → ofDuration v = .ok e →
      (d.Equal e ↔ d.totalSeconds = e.totalSeconds) ∧
      (u.length = v.length → d.Equal e) ∧
      (u.length < v.length → d.compare e ≠ .gt) ∧
      (u.KeepsPlaces → v.KeepsPlaces →
        (d.Equal e ↔ u.length = v.length) ∧ d.compare e = cmp u.length v.length) := by
  constructor
  · cases outcome : ofDuration u with
    | error fault =>
      obtain ⟨rfl, long⟩ := (ofDuration_eq_error_iff dayTime).1 outcome
      exact .inl ⟨rfl, long⟩
    | ok d =>
      refine .inr ⟨?_, d, rfl, toRat_eq_length_iff outcome⟩
      by_contra long
      have refused := (ofDuration_eq_error_iff dayTime).2 ⟨rfl, not_lt.1 long⟩
      rw [outcome] at refused
      simp only [reduceCtorEq] at refused
  · intro d e hd he
    refine ⟨equal_iff_totalSeconds hd he, ?_, ?_, ?_⟩
    · intro same
      rw [equal_iff_toRat]
      exact le_antisymm (toRat_le_of_length_le hd he same.le) (toRat_le_of_length_le he hd same.ge)
    · intro less
      rw [compare_eq_cmp_toRat, Ne, cmp_eq_gt_iff, not_lt]
      exact toRat_le_of_length_le hd he less.le
    · intro keeps keeps'
      rw [equal_iff_toRat, compare_eq_cmp_toRat, (toRat_eq_length_iff hd).2 keeps,
        (toRat_eq_length_iff he).2 keeps']
      exact ⟨Iff.rfl, rfl⟩

theorem minute_equals_sixty_seconds :
    let minute : Duration := .signed false { minutes := 1 }
    let seconds : Duration := .signed false { seconds := ⟨false, 60, 0, by decide, by decide⟩ }
    minute.hasYearMonth = false ∧
      ∃ d e, ofDuration minute = .ok d ∧ ofDuration seconds = .ok e ∧
        d.totalSeconds.toRat = minute.length ∧ d.Equal e := by
  intro minute seconds
  have he : ofDuration seconds = .ok ⟨seconds, ⟨false, 60, 0, by decide, by decide⟩⟩ := by
    decide +kernel
  have same : minute.length = seconds.length :=
    le_antisymm (length_le_length_iff.2 (by decide +kernel))
      (length_le_length_iff.2 (by decide +kernel))
  have keeps : minute.KeepsPlaces ∧ seconds.KeepsPlaces := by decide +kernel
  obtain ⟨outcome, agree⟩ := total_eq_length_iff_keepsPlaces minute seconds rfl
  rcases outcome with ⟨refused, _⟩ | ⟨_, d, hd, exact_iff⟩
  · exact absurd refused (by decide +kernel)
  · exact ⟨rfl, d, _, hd, he, exact_iff.2 keeps.1,
      ((agree d _ hd he).2.2.2 keeps.1 keeps.2).1.2 same⟩

theorem trace_beside_day_lost :
    let day : Duration := .signed false { days := 1 }
    let longer : Duration :=
      .signed false { days := 1, seconds := ⟨false, 1, 28, by decide, by decide⟩ }
    (day.text = "P1D" ∧ longer.text = "P1DT0.0000000000000000000000000001S") ∧
      ∃ d e, ofDuration day = .ok d ∧ ofDuration longer = .ok e ∧ d.Equal e ∧
        day.length < longer.length ∧ e.totalSeconds.toRat ≠ longer.length := by
  intro day longer
  have hd : ofDuration day = .ok ⟨day, ⟨false, 86400, 0, by decide, by decide⟩⟩ := by
    decide +kernel
  have he : ofDuration longer = .ok ⟨longer, ⟨false, 86400, 0, by decide, by decide⟩⟩ := by
    decide +kernel
  refine ⟨by decide +kernel, _, _, hd, he, by decide +kernel, ?_, ?_⟩
  · rw [← not_le, length_le_length_iff]
    decide +kernel
  · rw [Ne, toRat_eq_length_iff he]
    decide +kernel

end DayTimeDuration

end PolicyValues
