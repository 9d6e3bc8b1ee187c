import PolicyValues.Double.Format
import PolicyValues.Proofs.Decimal.Written
import PolicyValues.Proofs.Double.Rounding

/-!
The digits shown for a number lie between the midpoints to its neighbours, so the number is the nearest
one to them. The grid of seventeen digits is finer than the neighbours lie apart, which ends the search.
-/
namespace PolicyValues.Double

theorem unitAt_pred (a : ℕ) : unitAt a =
    if mantissaAt (a + 1) = 2 ^ 52 ∧ 1 < (a + 1) / 2 ^ 52 then unitAt (a + 1) / 2
    else unitAt (a + 1) := by
  have edge : mantissaAt (a + 1) = 2 ^ 52 ∧ 1 < (a + 1) / 2 ^ 52 ↔
      (a + 1) % 2 ^ 52 = 0 ∧ 1 < (a + 1) / 2 ^ 52 := by
    unfold mantissaAt
    split <;> omega
  rw [if_congr edge rfl rfl]
  split
  · have next : exponentAt (a + 1) = exponentAt a + 1 := by
      unfold exponentAt
      omega
    rw [unitAt, unitAt, next, zpow_add_one₀ two_ne_zero, mul_div_cancel_right₀ _ two_ne_zero]
  · have same : exponentAt (a + 1) = exponentAt a := by
      unfold exponentAt
      omega
    rw [unitAt, unitAt, same]

namespace Interval

/-- What lies between the midpoints next to the size bits `a + 1`. -/
structure Around (i : Interval) (a : ℕ) : Prop where
  denominator_pos : 0 < i.denominator
  low : (i.low / i.denominator : ℚ) = middle a
  value : (i.value / i.denominator : ℚ) = sizeAt (a + 1)
  high : (i.high / i.denominator : ℚ) = middle (a + 1)
  closed : i.closed = true ↔ (a + 1) % 2 = 0

variable {i : Interval} {a n d : ℕ}

theorem Around.contains_iff (h : i.Around a) (hd : 0 < d) : i.contains n d = true ↔
    if i.closed then middle a ≤ (n / d : ℚ) ∧ (n / d : ℚ) ≤ middle (a + 1)
    else middle a < (n / d : ℚ) ∧ (n / d : ℚ) < middle (a + 1) := by
  have den : (0 : ℚ) < i.denominator := by exact_mod_cast h.denominator_pos
  have positive : (0 : ℚ) < d := by exact_mod_cast hd
  unfold contains
  rw [← h.low, ← h.high, div_le_div_iff₀ den positive, div_le_div_iff₀ positive den,
    div_lt_div_iff₀ den positive, div_lt_div_iff₀ positive den]
  split
  · rw [Bool.and_eq_true, decide_eq_true_eq, decide_eq_true_eq]
    exact_mod_cast Iff.rfl
  · rw [Bool.and_eq_true, decide_eq_true_eq, decide_eq_true_eq]
    exact_mod_cast Iff.rfl

theorem Around.between (h : i.Around a) (hd : 0 < d) (inside : i.contains n d = true) :
    Between (n / d) (a + 1) := by
  rw [h.contains_iff hd] at inside
  split at inside
  · rename_i closed
    have even := h.closed.1 closed
    refine ⟨fun b next => ?_, ?_⟩
    · obtain rfl : b = a := Nat.succ.inj next
      exact inside.1.lt_or_eq.imp_right fun tie => ⟨tie, even⟩
    · exact inside.2.lt_or_eq.imp_right fun tie => ⟨tie, even⟩
  · refine ⟨fun b next => ?_, .inl inside.2⟩
    obtain rfl : b = a := Nat.succ.inj next
    exact .inl inside.1

theorem Around.contains (h : i.Around a) (hd : 0 < d) (low : middle a < (n / d : ℚ))
    (high : (n / d : ℚ) < middle (a + 1)) : i.contains n d = true := by
  rw [h.contains_iff hd]
  split
  · exact ⟨low.le, high.le⟩
  · exact ⟨low, high⟩

end Interval

theorem mul_scaled_one (n : ℕ) (e : ℤ) :
    ((n * (scaled 1 e).1 : ℕ) / (scaled 1 e).2 : ℚ) = n * 2 ^ e := by
  rw [Nat.cast_mul, mul_div_assoc, scaled_eq, Nat.cast_one, one_mul]

theorem interval_around {x : Double} {a : ℕ} (size : x.sizeBits = a + 1) : (interval x).Around a := by
  have mantissa : x.mantissa = mantissaAt (a + 1) := by rw [← size]; rfl
  have exponent : x.exponent = exponentAt (a + 1) := by rw [← size]; rfl
  have field : x.exponentField = (a + 1) / 2 ^ 52 := by rw [← size]; rfl
  have quarter : (2 : ℚ) ^ (exponentAt (a + 1) - 2) = unitAt (a + 1) / 4 := by
    have whole := pow_mul_zpow 2 (e := exponentAt (a + 1) - 2) (f := exponentAt (a + 1)) (by omega)
    rw [unitAt, ← whole]
    ring
  have value : sizeAt (a + 1) = mantissaAt (a + 1) * unitAt (a + 1) := rfl
  have positive : 1 ≤ mantissaAt (a + 1) := by
    unfold mantissaAt
    split <;> omega
  have unit := unitAt_pred a
  constructor
  · exact scaled_pos 1 _
  · simp only [interval, mul_scaled_one]
    rw [mantissa, exponent, field, quarter, middle_eq_sub, unit, value]
    split
    · rw [Nat.cast_sub (by omega)]
      push_cast
      ring
    · rw [Nat.cast_sub (by omega)]
      push_cast
      ring
  · simp only [interval, mul_scaled_one]
    rw [mantissa, exponent, quarter, value]
    push_cast
    ring
  · simp only [interval, mul_scaled_one]
    rw [mantissa, exponent, quarter, middle_eq, value]
    push_cast
    ring
  · rw [interval, beq_iff_eq, mantissa_mod_two, size]

/-! ## The search -/

theorem tenTo_pos (e : ℤ) : 0 < (tenTo e).2 := Nat.pow_pos (by norm_num)

theorem mul_tenTo (n : ℕ) (e : ℤ) : ((n * (tenTo e).1 : ℕ) / (tenTo e).2 : ℚ) = n * 10 ^ e := by
  rw [Nat.cast_mul, mul_div_assoc, tenTo_eq]

theorem le_decimalExponent {n d : ℕ} (hn : 0 < n) (hd : 0 < d) :
    (10 : ℚ) ^ (decimalExponent n d - 1) ≤ n / d := by
  have positive : (0 : ℚ) < d := by exact_mod_cast hd
  rw [le_div_iff₀ positive]
  unfold decimalExponent
  split
  · rename_i large
    have whole : 1 ≤ n / d := (Nat.one_le_div_iff hd).2 large
    obtain ⟨k, length⟩ := Nat.exists_eq_succ_of_ne_zero
      (List.length_pos_iff.2 (Digits.ofNat_ne_nil (n / d))).ne'
    have reached : 10 ^ k ≤ n / d := by
      cases k with
      | zero => exact whole
      | succ k =>
        have longer := mt (Digits.length_ofNat_le_iff (n := n / d) k.succ_pos).2
        rw [length] at longer
        exact Nat.not_lt.1 (longer (Nat.not_le.2 (Nat.lt_succ_self _)))
    rw [length, Nat.cast_succ, add_sub_cancel_right, zpow_natCast]
    exact_mod_cast (Nat.mul_le_mul_right d reached).trans (Nat.div_mul_le_self n d)
  · rename_i small
    generalize length : (Digits.ofNat ((d - 1) / n)).length = k
    have some_digit : 0 < k := by
      rw [← length]
      exact List.length_pos_iff.2 (Digits.ofNat_ne_nil _)
    have bound := (Digits.length_ofNat_le_iff some_digit).1 length.le
    rw [Nat.div_lt_iff_lt_mul hn] at bound
    have power : (0 : ℚ) < 10 ^ k := by positivity
    rw [sub_sub_cancel_left, zpow_neg, zpow_natCast, inv_mul_le_iff₀ power]
    exact_mod_cast Nat.le_of_pred_lt bound

section
variable {i : Interval} {a : ℕ} {exponent : ℤ} {count point : ℕ}

theorem contains_of_gridPoint? (found : gridPoint? i exponent count = some point) :
    i.contains (point * (tenTo (exponent - count)).1) (tenTo (exponent - count)).2 = true := by
  simp only [gridPoint?] at found
  split at found
  · rename_i lower upper
    split at found
    · rwa [← Option.some.inj found]
    · rwa [← Option.some.inj found]
  · rename_i lower _
    rwa [← Option.some.inj found]
  · rename_i upper
    rwa [← Option.some.inj found]
  · simp only [reduceCtorEq] at found

theorem grid_bounds {n d up down lower upper : ℕ} (hd : 0 < d) (hup : 0 < up) (hdown : 0 < down)
    (lower_eq : n * down / (d * up) = lower)
    (upper_eq : (if n * down % (d * up) = 0 then lower else lower + 1) = upper) :
    ((lower * up : ℕ) / down : ℚ) ≤ n / d ∧ (n / d : ℚ) ≤ (upper * up : ℕ) / down ∧
      upper ≤ lower + 1 := by
  have positive : (0 : ℚ) < d := by exact_mod_cast hd
  have down_pos : (0 : ℚ) < down := by exact_mod_cast hdown
  have whole := Nat.div_add_mod' (n * down) (d * up)
  have rest := Nat.mod_lt (n * down) (Nat.mul_pos hd hup)
  have shuffle (k : ℕ) : k * up * d = k * (d * up) := by ring
  rw [lower_eq, ← shuffle] at whole
  have above : n * down ≤ upper * up * d ∧ upper ≤ lower + 1 := by
    split at upper_eq
    · subst upper_eq
      exact ⟨by omega, Nat.le_succ _⟩
    · subst upper_eq
      rw [shuffle, Nat.add_mul, Nat.one_mul, ← shuffle]
      exact ⟨by omega, le_refl _⟩
  rw [div_le_div_iff₀ down_pos positive, div_le_div_iff₀ positive down_pos]
  refine ⟨?_, ?_, above.2⟩
  · exact_mod_cast whole ▸ Nat.le_add_right _ _
  · exact_mod_cast above.1

theorem gridPoint?_ne_none (h : i.Around a) (fine : (10 : ℚ) ^ (exponent - count) < unitAt a) :
    gridPoint? i exponent count ≠ none := by
  have down_pos := tenTo_pos (exponent - count)
  have up_pos : 0 < (tenTo (exponent - count)).1 := Nat.pow_pos (by norm_num)
  have point (n : ℕ) := mul_tenTo n (exponent - count)
  simp only [gridPoint?]
  generalize (tenTo (exponent - count)).1 = up at *
  generalize (tenTo (exponent - count)).2 = down at *
  generalize lower_eq : i.value * down / (i.denominator * up) = lower
  generalize upper_eq : (if i.value * down % (i.denominator * up) = 0 then lower else lower + 1) = upper
  obtain ⟨below, above, next⟩ := grid_bounds h.denominator_pos up_pos down_pos lower_eq upper_eq
  have apart : middle a + unitAt a ≤ middle (a + 1) := by
    have wider : unitAt a ≤ unitAt (a + 1) := by
      have half := unitAt_pos (a + 1)
      rw [unitAt_pred]
      split <;> linarith
    rw [middle_eq, middle_eq, sizeAt_succ]
    linarith
  have here : middle a < sizeAt (a + 1) ∧ sizeAt (a + 1) < middle (a + 1) := by
    have here := unitAt_pos a
    have next := unitAt_pos (a + 1)
    rw [middle_eq_sub, middle_eq]
    exact ⟨by linarith, by linarith⟩
  rw [h.value] at below above
  have inside : i.contains (lower * up) down = true ∨ i.contains (upper * up) down = true := by
    rcases lt_or_ge (middle a) ((lower * up : ℕ) / down : ℚ) with reached | short
    · exact .inl (h.contains down_pos reached (below.trans_lt here.2))
    · refine .inr (h.contains down_pos (here.1.trans_le above) ?_)
      have last : (upper : ℚ) ≤ lower + 1 := by exact_mod_cast next
      have step : (0 : ℚ) < 10 ^ (exponent - count) := zpow_pos (by norm_num) _
      rw [point] at short ⊢
      calc (upper : ℚ) * 10 ^ (exponent - count)
          ≤ (lower + 1) * 10 ^ (exponent - count) := by gcongr
        _ = lower * 10 ^ (exponent - count) + 10 ^ (exponent - count) := by ring
        _ < middle a + unitAt a := add_lt_add_of_le_of_lt short fine
        _ ≤ middle (a + 1) := apart
  split
  · split <;> exact Option.some_ne_none _
  · exact Option.some_ne_none _
  · exact Option.some_ne_none _
  · rename_i outside outside'
    rw [outside, outside'] at inside
    exact absurd inside (by decide)

theorem seventeen_digits (leading : (10 : ℚ) ^ (exponent - 1) ≤ sizeAt (a + 1)) :
    (10 : ℚ) ^ (exponent - (17 : ℕ)) < unitAt a := by
  have unit := unitAt_pos a
  have units : sizeAt (a + 1) ≤ 2 ^ 53 * unitAt a := by
    have fits : (mantissaAt a : ℚ) + 1 ≤ 2 ^ 53 := by exact_mod_cast mantissaAt_lt a
    rw [sizeAt_succ, sizeAt, ← add_one_mul]
    gcongr
  have digits : (10 : ℚ) ^ (exponent - 1) = 10 ^ (exponent - (17 : ℕ)) * 10 ^ 16 := by
    rw [← zpow_natCast, ← zpow_add₀ (by norm_num)]
    congr 1
    push_cast
    ring
  linarith

theorem gridPoint?_firstPoint {tries : ℕ} (last : gridPoint? i exponent (count + tries) ≠ none) :
    gridPoint? i exponent (firstPoint i exponent tries count).2 =
      some (firstPoint i exponent tries count).1 := by
  induction tries generalizing count with
  | zero =>
    obtain ⟨point, found⟩ := Option.ne_none_iff_exists'.1 last
    simp only [firstPoint, found, Nat.add_zero, Option.getD_some] at *
  | succ tries ih =>
    simp only [firstPoint]
    split
    · assumption
    · exact ih (by rwa [Nat.succ_add_eq_add_succ])

end

/-! ## The form -/

def DecimalForm.toRat (f : DecimalForm) : ℚ :=
  Digits.value f.digits * 10 ^ (f.exponent - f.digits.length)

structure DecimalForm.Lexical (f : DecimalForm) : Prop where
  some_digit : f.digits ≠ []
  all_digits : ∀ c ∈ f.digits, c.isDigit = true

theorem exists_zeros_formOf (point count : ℕ) (exponent : ℤ) : ∃ zeros,
    Digits.ofNat point = (formOf point count exponent).digits ++ List.replicate zeros '0' :=
  Digits.exists_trailing_zeros _

theorem toRat_formOf (point count : ℕ) (exponent : ℤ) :
    (formOf point count exponent).toRat = point * 10 ^ (exponent - count) := by
  obtain ⟨zeros, split⟩ := exists_zeros_formOf point count exponent
  have value := Digits.value_ofNat point
  have length := congrArg List.length split
  rw [split, Digits.value_append_replicate] at value
  rw [List.length_append, List.length_replicate] at length
  have place : (formOf point count exponent).exponent =
      exponent + ((Digits.ofNat point).length : ℤ) - count := rfl
  rw [DecimalForm.toRat, place, length]
  generalize (formOf point count exponent).digits = ds at *
  rw [← value]
  push_cast
  rw [mul_assoc, ← zpow_natCast, ← zpow_add₀ (by norm_num)]
  congr 2
  ring

theorem lexical_formOf {point : ℕ} (nonzero : point ≠ 0) (count : ℕ) (exponent : ℤ) :
    (formOf point count exponent).Lexical := by
  obtain ⟨zeros, split⟩ := exists_zeros_formOf point count exponent
  constructor
  · intro none
    have value := Digits.value_ofNat point
    rw [split, none, Digits.value_append_replicate] at value
    exact nonzero (value.symm.trans (Nat.zero_mul _))
  · intro c mem
    exact Digits.isDigit_of_mem_ofNat c (by rw [split]; exact List.mem_append_left _ mem)

theorem shortest_nearest {x : Double} (nonzero : x.isZero = false) :
    x.shortest.Lexical ∧ Nearest x.shortest.toRat x.sizeBits := by
  obtain ⟨a, size⟩ : ∃ a, x.sizeBits = a + 1 :=
    Nat.exists_eq_succ_of_ne_zero (beq_eq_false_iff_ne.1 nonzero)
  have around := interval_around size
  have value_pos : 0 < (interval x).value := by
    have positive := (sizeAt_nonneg a).trans_lt (sizeAt_strictMono a.lt_succ_self)
    have den : (0 : ℚ) < (interval x).denominator := by exact_mod_cast around.denominator_pos
    rw [← around.value, div_pos_iff_of_pos_right den] at positive
    exact_mod_cast positive
  have leading := le_decimalExponent value_pos around.denominator_pos
  rw [around.value] at leading
  unfold shortest
  simp only
  generalize decimalExponent (interval x).value (interval x).denominator = exponent at *
  have last : gridPoint? (interval x) exponent (1 + 16) ≠ none :=
    gridPoint?_ne_none around (seventeen_digits leading)
  have found := gridPoint?_firstPoint last
  generalize firstPoint (interval x) exponent 16 1 = first at *
  have between := around.between (tenTo_pos _) (contains_of_gridPoint? found)
  rw [mul_tenTo] at between
  refine ⟨lexical_formOf ?_ _ _, ?_⟩
  · intro zero
    rw [zero, Nat.cast_zero, zero_mul] at between
    have low : 0 < middle a := by
      rw [middle_eq]
      exact add_pos_of_nonneg_of_pos (sizeAt_nonneg a) (half_pos (unitAt_pos a))
    rcases between.above a rfl with less | ⟨tie, -⟩
    · exact absurd less (not_lt_of_gt low)
    · exact absurd tie low.ne'
  · rw [toRat_formOf, size]
    exact between.nearest

theorem form_nearest (x : Double) : x.form.Lexical ∧ Nearest x.form.toRat x.sizeBits := by
  unfold form
  split
  · rename_i zero
    have value : Digits.value ['0'] = 0 := rfl
    rw [beq_iff_eq.1 zero, DecimalForm.toRat, value, Nat.cast_zero, zero_mul]
    exact ⟨⟨List.cons_ne_nil _ _, List.forall_mem_singleton.2 rfl⟩, nearest_zero⟩
  · rename_i nonzero
    exact shortest_nearest (Bool.eq_false_iff.2 nonzero)

end PolicyValues.Double
