import PolicyValues.Proofs.Duration.Carried

/-!
The text of a duration of days and smaller units shows the carried form of its total, so equal
durations have one text. From 2 ^ 64 seconds on there is no carried form: the text shows the
components themselves, and durations that are equal but divided otherwise are shown otherwise.
-/
namespace PolicyValues

namespace Duration

theorem toMagnitudes_negate (u : Duration) : u.negate.toMagnitudes = u.toMagnitudes := by
  have signed := congrArg toMagnitudes u.signed_toMagnitudes
  exact signed

theorem negative_negate (u : Duration) : u.negate.negative = (!u.negative && !u.isZero) := by
  rw [isZero, ← u.toMagnitudes_negate]
  rfl

end Duration

namespace DayTimeDuration
open Decimal

/-- Every way to get a duration of days and smaller units. -/
inductive Made : DayTimeDuration → Prop
  | ofDuration {u : Duration} {d : DayTimeDuration} (h : DayTimeDuration.ofDuration u = .ok d) :
    Made d
  | new {negative : Bool} {size : Magnitudes} {d : DayTimeDuration}
    (h : DayTimeDuration.new negative size = .ok d) : Made d
  | parse {text : String} {d : DayTimeDuration} (h : DayTimeDuration.parse text = .ok d) : Made d
  | ofTotalSeconds {total : Decimal} {d : DayTimeDuration}
    (h : DayTimeDuration.ofTotalSeconds total = .ok d) : Made d
  | canonical {d e : DayTimeDuration} (made : Made d) (h : d.canonical = .ok e) : Made e
  | negate {d : DayTimeDuration} (h : Made d) : Made d.negate

def Consistent (d : DayTimeDuration) : Prop := ∃ e, ofDuration d.duration = .ok e ∧ d.Equal e

theorem Readable.consistent {d : DayTimeDuration} (h : d.Readable) : d.Consistent := ⟨d, h, rfl⟩

theorem readable_of_ofTotalSeconds {total : Decimal} {d : DayTimeDuration}
    (h : ofTotalSeconds total = .ok d) : d.Readable := by
  obtain ⟨small, rfl⟩ := ofTotalSeconds_eq_ok_iff.1 h
  exact ofDuration_carry small

theorem fit?_size_congr {u v : Duration} (same : u.toMagnitudes = v.toMagnitudes) :
    fit? false u.size u.seconds.scale u.seconds.scale u.seconds.scale_le =
      fit? false v.size v.seconds.scale v.seconds.scale v.seconds.scale_le := by
  obtain ⟨size, _, _, _⟩ := u
  obtain ⟨size', _, _, _⟩ := v
  simp only at same
  subst same
  rfl

theorem ofDuration_negate {u : Duration} {d : DayTimeDuration} (h : ofDuration u = .ok d) :
    ∃ e, ofDuration u.negate = .ok e ∧ e.totalSeconds.toRat = -d.totalSeconds.toRat := by
  have dayTime := (ofDuration_eq_ok h).1
  have dayTime' : u.negate.hasYearMonth = false := by rw [u.toMagnitudes_negate, dayTime]
  obtain ⟨total, fitted, rfl⟩ := (ofDuration_eq_ok_iff dayTime).1 h
  refine ⟨_, (ofDuration_eq_ok_iff dayTime').2
    ⟨total, (fit?_size_congr u.toMagnitudes_negate).trans fitted, rfl⟩, ?_⟩
  simp only [toRat_normalize, Duration.negative_negate]
  cases empty : u.isZero with
  | true =>
    obtain rfl := Duration.eq_zero_of_isZero empty
    obtain rfl : total = .zero := Option.some.inj (fitted.symm.trans (by decide +kernel))
    have nothing : Decimal.zero.toRat = 0 := (isZero_iff_toRat _).1 rfl
    have positive : Duration.zero.negative = false := rfl
    simp only [positive, Bool.not_true, Bool.and_false, Bool.false_eq_true, if_false, nothing,
      neg_zero]
  | false => cases u.negative <;> simp [toRat_neg]

theorem Consistent.negate {d : DayTimeDuration} (h : d.Consistent) : d.negate.Consistent := by
  obtain ⟨e, total, same⟩ := h
  obtain ⟨e', total', opposite⟩ := ofDuration_negate total
  refine ⟨e', total', ?_⟩
  rw [equal_iff_toRat] at same ⊢
  rw [opposite, ← same]
  exact toRat_neg _

theorem Made.consistent {d : DayTimeDuration} (h : d.Made) : d.Consistent := by
  induction h with
  | ofDuration h => exact (readable_of_ofDuration h).consistent
  | new h =>
    obtain ⟨u, _, total⟩ := bind_eq_ok_iff.1 h
    exact (readable_of_ofDuration total).consistent
  | parse h => exact (readable_of_parse h).consistent
  | ofTotalSeconds h => exact (readable_of_ofTotalSeconds h).consistent
  | canonical _ h => exact (readable_of_ofTotalSeconds h).consistent
  | negate _ ih => exact ih.negate

section
variable {d : DayTimeDuration}

theorem text_of_small (small : d.totalSeconds.whole < 2 ^ 64) :
    d.text = (carry d.totalSeconds).text := by
  rw [text, canonical, ofTotalSeconds_eq, if_neg (Nat.not_le.2 small)]

theorem text_of_large (large : 2 ^ 64 ≤ d.totalSeconds.whole) : d.text = d.duration.text := by
  rw [text, canonical, ofTotalSeconds_eq, if_pos large]

theorem Consistent.parse_text (h : d.Consistent) : ∃ e, parse d.text = .ok e ∧ d.Equal e := by
  rcases Nat.lt_or_ge d.totalSeconds.whole (2 ^ 64) with small | large
  · rw [text_of_small small, parse_duration_text rfl, ofDuration_carry small]
    exact ⟨_, rfl, equal_iff_toRat.2 (toRat_normalize _).symm⟩
  · obtain ⟨e, total, same⟩ := h
    rw [text_of_large large, parse_duration_text (ofDuration_eq_ok total).1]
    exact ⟨e, total, same⟩

end

theorem Equal.whole_eq {a b : DayTimeDuration} (h : a.Equal b) :
    a.totalSeconds.whole = b.totalSeconds.whole := by
  rw [← floor_abs_toRat, ← floor_abs_toRat, equal_iff_toRat.1 h]

theorem Equal.carry_eq {a b : DayTimeDuration} (h : a.Equal b) :
    carry a.totalSeconds = carry b.totalSeconds := by
  have same : a.totalSeconds.normalize = b.totalSeconds.normalize :=
    a.totalSeconds.normal_normalize.eq_of_toRat b.totalSeconds.normal_normalize
      (by rw [toRat_normalize, toRat_normalize, equal_iff_toRat.1 h])
  rw [← carry_normalize, same, carry_normalize]

theorem Consistent.equal_of_text {a b : DayTimeDuration} (ha : a.Consistent) (hb : b.Consistent)
    (shown : a.text = b.text) : a.Equal b := by
  obtain ⟨e, read, same⟩ := ha.parse_text
  obtain ⟨e', read', same'⟩ := hb.parse_text
  rw [shown, read'] at read
  obtain rfl := Except.ok.inj read
  exact equal_iff_toRat.2 ((equal_iff_toRat.1 same).trans (equal_iff_toRat.1 same').symm)

/-- Two durations have the same text exactly if they are equal and either have a carried form or
consist of the same components. -/
theorem same_text_iff {a b : DayTimeDuration} (ha : a.Made) (hb : b.Made) :
    a.text = b.text ↔
      a.Equal b ∧ (⌊|a.totalSeconds.toRat|⌋₊ < 2 ^ 64 ∨ a.duration = b.duration) := by
  rw [floor_abs_toRat]
  constructor
  · intro shown
    have same := ha.consistent.equal_of_text hb.consistent shown
    refine ⟨same, ?_⟩
    rcases Nat.lt_or_ge a.totalSeconds.whole (2 ^ 64) with small | large
    · exact .inl small
    · rw [text_of_large large, text_of_large (same.whole_eq ▸ large)] at shown
      have read := a.duration.parse_text
      rw [shown, b.duration.parse_text] at read
      exact .inr (Except.ok.inj read).symm
  · rintro ⟨same, shape⟩
    rcases Nat.lt_or_ge a.totalSeconds.whole (2 ^ 64) with small | large
    · rw [text_of_small small, text_of_small (same.whole_eq ▸ small), same.carry_eq]
    · have components := shape.resolve_left (Nat.not_lt.2 large)
      rw [text_of_large large, text_of_large (same.whole_eq ▸ large), components]

theorem hours_and_days_have_one_text :
    ∃ a b, parse "-PT36H" = .ok a ∧ parse "P1DT12H" = .ok b ∧ a.Made ∧ b.negate.Made ∧
      ⌊|a.totalSeconds.toRat|⌋₊ < 2 ^ 64 ∧ a.duration ≠ b.negate.duration ∧
        a.Equal b.negate ∧ a.text = b.negate.text := by
  let hours : Duration := .signed true { hours := 36 }
  let days : Duration := .signed false { days := 1, hours := 12 }
  let a : DayTimeDuration := ⟨hours, ⟨true, 129600, 0, by decide, by decide⟩⟩
  let b : DayTimeDuration := ⟨days, ⟨false, 129600, 0, by decide, by decide⟩⟩
  have texts : hours.text = "-PT36H" ∧ days.text = "P1DT12H" := by decide +kernel
  have totals : ofDuration hours = .ok a ∧ ofDuration days = .ok b := by decide +kernel
  have read : parse "-PT36H" = .ok a := by rw [← texts.1, parse_duration_text rfl, totals.1]
  have read' : parse "P1DT12H" = .ok b := by rw [← texts.2, parse_duration_text rfl, totals.2]
  have small : ⌊|a.totalSeconds.toRat|⌋₊ < 2 ^ 64 := by
    rw [floor_abs_toRat]
    decide +kernel
  have same : a.Equal b.negate := by decide +kernel
  exact ⟨a, b, read, read', .parse read, .negate (.parse read'), small, by decide +kernel, same,
    (same_text_iff (.parse read) (.negate (.parse read'))).2 ⟨same, .inl small⟩⟩

theorem large_total_has_two_texts :
    ∃ a b, parse "PT18446744073709551616S" = .ok a ∧ parse "P1DT18446744073709465216S" = .ok b ∧
      (a.text = "PT18446744073709551616S" ∧ b.text = "P1DT18446744073709465216S") ∧
        ¬ (a.Equal b ↔ a.text = b.text) := by
  let seconds : Duration :=
    .signed false { seconds := ⟨false, 18446744073709551616, 0, by decide, by decide⟩ }
  let day : Duration :=
    .signed false { days := 1, seconds := ⟨false, 18446744073709465216, 0, by decide, by decide⟩ }
  let total : Decimal := ⟨false, 18446744073709551616, 0, by decide, by decide⟩
  have texts : seconds.text = "PT18446744073709551616S" ∧
      day.text = "P1DT18446744073709465216S" := by decide +kernel
  have totals : ofDuration seconds = .ok ⟨seconds, total⟩ ∧ ofDuration day = .ok ⟨day, total⟩ := by
    decide +kernel
  have large : 2 ^ 64 ≤ total.whole := by decide +kernel
  have shown : text ⟨seconds, total⟩ = "PT18446744073709551616S" := by
    rw [text_of_large large, texts.1]
  have shown' : text ⟨day, total⟩ = "P1DT18446744073709465216S" := by
    rw [text_of_large large, texts.2]
  refine ⟨⟨seconds, total⟩, ⟨day, total⟩, ?_, ?_, ⟨shown, shown'⟩, fun canonical => ?_⟩
  · rw [← texts.1, parse_duration_text rfl, totals.1]
  · rw [← texts.2, parse_duration_text rfl, totals.2]
  · have same := canonical.1 rfl
    rw [shown, shown'] at same
    exact absurd same (by decide)

end DayTimeDuration

end PolicyValues
