import PolicyValues.Duration.Totals
import PolicyValues.Proofs.Duration.RoundTrip

/-!
Texts of durations that are ordered by totals keep the total. They show the carried form, so what is
read back may have other components, but never another total.
-/
namespace PolicyValues

namespace Duration

theorem toInt_of_totalMonths {u : Duration} {months : Int64} (h : u.totalMonths = .ok months) :
    u.years.toNat * 12 + u.months.toNat < 2 ^ 63 ∧
      months.toInt = u.sign * ↑(u.years.toNat * 12 + u.months.toNat) := by
  unfold totalMonths at h
  simp only at h
  split at h
  · rename_i fits
    refine ⟨fits, ?_⟩
    rw [← Except.ok.inj h]
    apply Int64.toInt_ofInt_of_le <;> unfold sign <;> split <;> omega
  · simp only [reduceCtorEq] at h

def wholeUnits (u : Duration) : Nat :=
  u.days.toNat * 86400 + u.hours.toNat * 3600 + u.minutes.toNat * 60

theorem wholeUnits_lt (u : Duration) : u.wholeUnits < 2 ^ 96 := by
  have := u.days.toNat_lt
  have := u.hours.toNat_lt
  have := u.minutes.toNat_lt
  unfold wholeUnits
  omega

theorem unit_lt (n : UInt64) {unit : Nat} (h : unit < 2 ^ 32) : n.toNat * unit < 2 ^ 96 :=
  (unitSeconds n unit h).mantissa_lt

theorem unitSeconds_eq (n : UInt64) (unit : Nat) (h : unit < 2 ^ 32) :
    unitSeconds n unit h = .integral (n.toNat * unit) (unit_lt n h) := rfl

theorem totalSeconds_eq (u : Duration) :
    u.totalSeconds =
      match (Decimal.integral u.wholeUnits u.wholeUnits_lt).add? u.seconds with
      | some total => .ok (if u.negative then total.neg else total)
      | none => .error (.outOfRange .duration .totalSeconds) := by
  have fits := u.wholeUnits_lt
  unfold wholeUnits at fits
  have dayHours : u.days.toNat * 86400 + u.hours.toNat * 3600 < 2 ^ 96 :=
    Nat.lt_of_le_of_lt (Nat.le_add_right _ _) fits
  rw [totalSeconds, unitSeconds_eq u.days, unitSeconds_eq u.hours, unitSeconds_eq u.minutes,
    Decimal.add?_integral _ _ dayHours, Option.bind_eq_bind, Option.bind_some,
    Decimal.add?_integral dayHours _ fits, Option.bind_some]
  rfl

end Duration

namespace YearMonthDuration

def Readable (d : YearMonthDuration) : Prop := d.totalMonths.toInt.natAbs < 2 ^ 63

theorem readable_of_ofDuration {u : Duration} {d : YearMonthDuration} (h : ofDuration u = .ok d) :
    d.Readable := by
  unfold ofDuration at h
  split at h
  · simp only [reduceCtorEq] at h
  · obtain ⟨months, total, rfl⟩ := map_eq_ok_iff.1 h
    obtain ⟨fits, value⟩ := Duration.toInt_of_totalMonths total
    rw [Readable, value]
    unfold Duration.sign
    split <;> omega

theorem readable_of_parse {text : String} {d : YearMonthDuration} (h : parse text = .ok d) :
    d.Readable := by
  obtain ⟨u, _, rest⟩ := bind_eq_ok_iff.1 h
  split at rest
  · simp only [reduceCtorEq] at rest
  · exact readable_of_ofDuration rest

theorem years_canonical (d : YearMonthDuration) :
    d.canonical.duration.years.toNat = d.totalMonths.toInt.natAbs / 12 := by
  have low := d.totalMonths.le_toInt
  have high := d.totalMonths.toInt_lt
  have fits : d.totalMonths.toInt.natAbs / 12 < 2 ^ 64 := by omega
  exact UInt64.toNat_ofNat_of_lt' fits

theorem months_canonical (d : YearMonthDuration) :
    d.canonical.duration.months.toNat = d.totalMonths.toInt.natAbs % 12 := by
  have fits : d.totalMonths.toInt.natAbs % 12 < 2 ^ 64 := by omega
  exact UInt64.toNat_ofNat_of_lt' fits

theorem negative_canonical (d : YearMonthDuration) :
    d.canonical.duration.negative = decide (d.totalMonths.toInt < 0) := by
  have zero : (d.totalMonths < 0) = (d.totalMonths.toInt < 0) := propext Int64.lt_iff_toInt_lt
  by_cases below : d.totalMonths.toInt < 0
  -- The sign is dropped only where years and months are both zero.
  · cases empty : d.canonical.duration.toMagnitudes.isZero with
    | true =>
      have years := d.years_canonical
      have months := d.months_canonical
      simp only [Magnitudes.isZero, Bool.and_eq_true, beq_iff_eq] at empty
      simp only [empty, UInt64.toNat_zero] at years months
      omega
    | false =>
      simp only [canonical, ofTotalMonths, Duration.signed] at empty ⊢
      simp only [zero, below, empty]
      rfl
  · simp only [canonical, ofTotalMonths, Duration.signed, zero, below, decide_false, Bool.false_and]

theorem Readable.ofDuration_canonical {d : YearMonthDuration} (h : d.Readable) :
    ofDuration d.canonical.duration = .ok d.canonical := by
  have whole : d.canonical.duration.hasDayTime = false := rfl
  have carried : d.canonical.duration.years.toNat * 12 + d.canonical.duration.months.toNat =
      d.totalMonths.toInt.natAbs := by
    rw [years_canonical, months_canonical]
    exact Nat.div_add_mod' _ _
  have signed : d.canonical.duration.sign * ↑d.totalMonths.toInt.natAbs = d.totalMonths.toInt := by
    simp only [Duration.sign, negative_canonical, decide_eq_true_eq]
    split <;> omega
  have fits : d.totalMonths.toInt.natAbs < 2 ^ 63 := h
  simp only [ofDuration, whole, Bool.false_eq_true, if_false, Duration.totalMonths, carried, fits,
    if_true, signed, Int64.ofInt_toInt, Except.map]
  rfl

theorem Readable.parse_text {d : YearMonthDuration} (h : d.Readable) :
    parse d.text = .ok d.canonical := by
  have whole : d.canonical.duration.hasDayTime = false := rfl
  simp only [parse, text, Duration.parse_text, bind, Except.bind, whole, Bool.false_eq_true,
    if_false, h.ofDuration_canonical]

end YearMonthDuration

namespace DayTimeDuration

def Readable (d : DayTimeDuration) : Prop := ofDuration d.duration = .ok d

theorem ofDuration_eq_ok {u : Duration} {d : DayTimeDuration} (h : ofDuration u = .ok d) :
    u.hasYearMonth = false ∧ d.duration = u ∧ d.totalSeconds.Normal := by
  unfold ofDuration at h
  split at h
  · simp only [reduceCtorEq] at h
  · rename_i dayTime
    obtain ⟨total, _, rfl⟩ := map_eq_ok_iff.1 h
    exact ⟨Bool.eq_false_iff.2 dayTime, rfl, total.normal_normalize⟩

theorem readable_of_ofDuration {u : Duration} {d : DayTimeDuration} (h : ofDuration u = .ok d) :
    d.Readable := by
  rw [Readable, (ofDuration_eq_ok h).2.1, h]

theorem readable_of_parse {text : String} {d : DayTimeDuration} (h : parse text = .ok d) :
    d.Readable := by
  obtain ⟨u, _, rest⟩ := bind_eq_ok_iff.1 h
  split at rest
  · simp only [reduceCtorEq] at rest
  · exact readable_of_ofDuration rest

theorem plain_beyondMinutes {total : Decimal} (normal : total.Normal) :
    (beyondMinutes total).Plain := by
  refine ⟨rfl, Decimal.strip_of_mod_ne fun fractional => ?_⟩
  have last := Decimal.mod_ne_of_strip normal.stripped fractional
  -- The whole part weighs a multiple of ten, so the last digit of the total is kept.
  have tens : 10 ∣ 10 ^ total.scale := by
    have one_le := Nat.pow_dvd_pow 10 (Nat.one_le_iff_ne_zero.2 fractional)
    rwa [Nat.pow_one] at one_le
  rw [beyondMinutes, Nat.add_mod, Nat.mod_mod_of_dvd _ tens,
    Nat.mod_eq_zero_of_dvd (Nat.dvd_mul_left_of_dvd tens _), Nat.zero_add, Nat.mod_mod]
  exact last

def carry (total : Decimal) : Duration :=
  .signed total.negative
    { days := UInt64.ofNat (total.whole / 86400)
      hours := UInt64.ofNat (total.whole % 86400 / 3600)
      minutes := UInt64.ofNat (total.whole % 3600 / 60)
      seconds := beyondMinutes total }

theorem whole_minutes (total : Decimal) :
    total.whole / 60 * 60 * 10 ^ total.scale + (beyondMinutes total).mantissa = total.mantissa := by
  have whole := Nat.div_add_mod' total.mantissa (10 ^ total.scale)
  have minutes := Nat.div_add_mod' total.whole 60
  rw [beyondMinutes, ← Nat.add_assoc, ← Nat.add_mul, minutes]
  exact whole

section
variable {total : Decimal}

theorem seconds_carry (normal : total.Normal) : (carry total).seconds = beyondMinutes total := by
  have plain := plain_beyondMinutes normal
  have positive : (beyondMinutes total).abs = beyondMinutes total := rfl
  simp only [carry, Duration.signed, positive, Decimal.normalize_eq_self plain]

theorem wholeUnits_carry (small : total.whole < 2 ^ 64) :
    (carry total).wholeUnits = total.whole / 60 * 60 := by
  have days : (carry total).days.toNat = total.whole / 86400 :=
    UInt64.toNat_ofNat_of_lt' (Nat.lt_of_le_of_lt (Nat.div_le_self _ _) small)
  have hours : (carry total).hours.toNat = total.whole % 86400 / 3600 :=
    UInt64.toNat_ofNat_of_lt' (show _ < 2 ^ 64 by omega)
  have minutes : (carry total).minutes.toNat = total.whole % 3600 / 60 :=
    UInt64.toNat_ofNat_of_lt' (show _ < 2 ^ 64 by omega)
  simp only [Duration.wholeUnits, days, hours, minutes]
  omega

theorem mantissa_eq_zero_of_carry (normal : total.Normal) (small : total.whole < 2 ^ 64)
    (empty : (carry total).isZero = true) : total.mantissa = 0 := by
  have units := wholeUnits_carry small
  simp only [Duration.isZero, Magnitudes.isZero, Bool.and_eq_true, beq_iff_eq, seconds_carry normal,
    Decimal.isZero] at empty
  simp only [Duration.wholeUnits, empty, UInt64.toNat_zero, Nat.zero_mul, Nat.add_zero] at units
  rw [← whole_minutes total, ← units, empty.2, Nat.zero_mul]

theorem negative_carry (normal : total.Normal) (small : total.whole < 2 ^ 64) :
    (carry total).negative = total.negative := by
  have signed : (carry total).negative = (total.negative && !(carry total).isZero) := rfl
  rw [signed]
  cases below : total.negative with
  | false => rfl
  | true =>
    have some_length : (carry total).isZero = false := Bool.eq_false_iff.2 fun empty =>
      normal.mantissa_ne below (mantissa_eq_zero_of_carry normal small empty)
    rw [some_length, Bool.not_false, Bool.and_self]

theorem totalSeconds_carry (normal : total.Normal) (small : total.whole < 2 ^ 64) :
    (carry total).totalSeconds = .ok total := by
  have size : (carry total).wholeUnits * 10 ^ (beyondMinutes total).scale +
      (beyondMinutes total).mantissa = total.mantissa := by
    rw [wholeUnits_carry small]
    exact whole_minutes total
  have fits := total.mantissa_lt
  rw [← size] at fits
  rw [Duration.totalSeconds_eq, seconds_carry normal, Decimal.add?_of_whole rfl rfl rfl fits,
    negative_carry normal small]
  refine congrArg Except.ok ?_
  cases below : total.negative with
  | false => exact Decimal.mk_eq below.symm size rfl
  | true => exact Decimal.mk_eq below.symm size rfl

end

theorem parse_duration_text {u : Duration} (dayTime : u.hasYearMonth = false) :
    parse u.text = ofDuration u := by
  simp only [parse, Duration.parse_text, bind, Except.bind, dayTime, Bool.false_eq_true, if_false]

end DayTimeDuration

end PolicyValues
