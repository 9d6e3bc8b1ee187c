import Mathlib.Tactic.LinearCombination
import PolicyValues.Double.Shortest
import PolicyValues.Proofs.Double.Sizes

/-!
Fractions rounded to doubles. The size bits are those of the nearest size, and they are the bits of
infinity from the midpoint behind the largest finite number on.
-/
namespace PolicyValues

theorem two_mul_le_of_divHalfEven (n : ℕ) {d : ℕ} (h : 0 < d) :
    2 * n ≤ 2 * (divHalfEven n d * d) + d ∧
      (2 * n = 2 * (divHalfEven n d * d) + d → divHalfEven n d % 2 = 0) := by
  have whole := Nat.div_add_mod' n d
  have rest := Nat.mod_lt n h
  simp only [divHalfEven]
  split
  · constructor <;> omega
  · rw [Nat.add_mul, Nat.one_mul]
    constructor <;> omega

theorem divHalfEven_two_mul_le (n : ℕ) {d : ℕ} (h : 0 < d) :
    2 * (divHalfEven n d * d) ≤ 2 * n + d ∧
      (2 * (divHalfEven n d * d) = 2 * n + d → divHalfEven n d % 2 = 0) := by
  have whole := Nat.div_add_mod' n d
  have rest := Nat.mod_lt n h
  simp only [divHalfEven]
  split
  · constructor <;> omega
  · rw [Nat.add_mul, Nat.one_mul]
    constructor <;> omega

namespace Double

theorem scaled_pos (n : ℕ) (e : ℤ) : 0 < (scaled n e).2 := Nat.pow_pos two_pos

theorem scaled_eq (n : ℕ) (e : ℤ) : ((scaled n e).1 : ℚ) / (scaled n e).2 = n * 2 ^ e := by
  obtain ⟨k, rfl | rfl⟩ := e.eq_nat_or_neg
  · simp [scaled]
  · simp [scaled, div_eq_mul_inv]

theorem tenTo_eq (e : ℤ) : ((tenTo e).1 : ℚ) / (tenTo e).2 = 10 ^ e := by
  obtain ⟨k, rfl | rfl⟩ := e.eq_nat_or_neg
  · simp [tenTo]
  · simp [tenTo]

theorem le_mul_scaled_iff {n d : ℕ} (hd : 0 < d) (e : ℤ) :
    (scaled d e).1 ≤ n * (scaled d e).2 ↔ (2 : ℚ) ^ e ≤ n / d := by
  have positive : (0 : ℚ) < d := by exact_mod_cast hd
  have down : (0 : ℚ) < (scaled d e).2 := by exact_mod_cast scaled_pos d e
  rw [le_div_iff₀ positive, mul_comm ((2 : ℚ) ^ e), ← scaled_eq, div_le_iff₀ down]
  exact_mod_cast Iff.rfl

theorem pow_mul_zpow (k : ℕ) {e f : ℤ} (sum : k + e = f) : (2 : ℚ) ^ k * 2 ^ e = 2 ^ f := by
  rw [← sum, zpow_add₀ two_ne_zero, zpow_natCast]

theorem log2_sub_bounds {n d : ℕ} (hn : 0 < n) (hd : 0 < d) :
    2 ^ ((Nat.log2 n : ℤ) - Nat.log2 d - 1) ≤ (n / d : ℚ) ∧
      (n / d : ℚ) < 2 ^ ((Nat.log2 n : ℤ) - Nat.log2 d + 1) := by
  have positive : (0 : ℚ) < d := by exact_mod_cast hd
  have n_low : (2 : ℚ) ^ Nat.log2 n ≤ n := by exact_mod_cast Nat.log2_self_le hn.ne'
  have n_high : (n : ℚ) < 2 ^ (Nat.log2 n + 1) := by exact_mod_cast Nat.lt_log2_self
  have d_low : (2 : ℚ) ^ Nat.log2 d ≤ d := by exact_mod_cast Nat.log2_self_le hd.ne'
  have d_high : (d : ℚ) < 2 ^ (Nat.log2 d + 1) := by exact_mod_cast Nat.lt_log2_self
  constructor
  · rw [le_div_iff₀ positive]
    calc (2 : ℚ) ^ ((Nat.log2 n : ℤ) - Nat.log2 d - 1) * d
        ≤ 2 ^ ((Nat.log2 n : ℤ) - Nat.log2 d - 1) * 2 ^ (Nat.log2 d + 1) := by gcongr
      _ = 2 ^ Nat.log2 n := by
          rw [mul_comm, ← zpow_natCast 2 (Nat.log2 n)]
          exact pow_mul_zpow _ (by push_cast; ring)
      _ ≤ n := n_low
  · rw [div_lt_iff₀ positive]
    calc (n : ℚ) < 2 ^ (Nat.log2 n + 1) := n_high
      _ = 2 ^ ((Nat.log2 n : ℤ) - Nat.log2 d + 1) * 2 ^ Nat.log2 d := by
          rw [mul_comm, ← zpow_natCast 2 (Nat.log2 n + 1)]
          exact (pow_mul_zpow _ (by push_cast; ring)).symm
      _ ≤ 2 ^ ((Nat.log2 n : ℤ) - Nat.log2 d + 1) * d := by gcongr

theorem exponentOf_bounds {n d : ℕ} (hn : 0 < n) (hd : 0 < d) :
    -1074 ≤ exponentOf n d ∧ (n / d : ℚ) < 2 ^ 53 * 2 ^ exponentOf n d ∧
      (exponentOf n d = -1074 ∨ 2 ^ 52 * 2 ^ exponentOf n d ≤ (n / d : ℚ)) := by
  obtain ⟨low, high⟩ := log2_sub_bounds hn hd
  -- The exponent that 53 bits ask for.
  obtain ⟨e, chosen, bottom, top⟩ : ∃ e : ℤ, exponentOf n d = max e (-1074) ∧
      2 ^ 52 * 2 ^ e ≤ (n / d : ℚ) ∧ (n / d : ℚ) < 2 ^ 53 * 2 ^ e := by
    have test := le_mul_scaled_iff (n := n) hd ((Nat.log2 n : ℤ) - Nat.log2 d)
    by_cases reached : (2 : ℚ) ^ ((Nat.log2 n : ℤ) - Nat.log2 d) ≤ n / d
    · refine ⟨(Nat.log2 n : ℤ) - Nat.log2 d - 52, ?_, ?_, ?_⟩
      · simp only [exponentOf, if_pos (test.2 reached)]
      · rwa [pow_mul_zpow 52 (by push_cast; ring : _ = (Nat.log2 n : ℤ) - Nat.log2 d)]
      · rwa [pow_mul_zpow 53 (by push_cast; ring : _ = (Nat.log2 n : ℤ) - Nat.log2 d + 1)]
    · refine ⟨(Nat.log2 n : ℤ) - Nat.log2 d - 53, ?_, ?_, ?_⟩
      · simp only [exponentOf, if_neg (mt test.1 reached)]
      · rwa [pow_mul_zpow 52 (by push_cast; ring : _ = (Nat.log2 n : ℤ) - Nat.log2 d - 1)]
      · rw [pow_mul_zpow 53 (by push_cast; ring : _ = (Nat.log2 n : ℤ) - Nat.log2 d)]
        exact not_le.1 reached
  rw [chosen]
  refine ⟨le_max_right _ _, top.trans_le ?_, ?_⟩
  · gcongr
    · norm_num
    · exact le_max_left _ _
  · rcases le_total e (-1074) with least | normal
    · exact .inl (max_eq_right least)
    · rw [max_eq_left normal]
      exact .inr bottom

def unboundedBits (n d : ℕ) : ℕ :=
  (exponentOf n d + 1074).toNat * 2 ^ 52 +
    divHalfEven (n * (scaled 1 (exponentOf n d)).2) (d * (scaled 1 (exponentOf n d)).1)

theorem roundBits_eq {n : ℕ} (hn : 0 < n) (d : ℕ) :
    roundBits n d = min (unboundedBits n d) infinityBits := by
  rw [roundBits, if_neg hn.ne']
  rfl

theorem between_of_mantissa {t : ℚ} {k q : ℕ} (low : k = 0 ∨ 2 ^ 52 ≤ t)
    (normal : k = 0 ∨ 2 ^ 52 ≤ q) (fits : q ≤ 2 ^ 53)
    (above : 2 * t ≤ 2 * q + 1 ∧ (2 * t = 2 * q + 1 → q % 2 = 0))
    (below : 2 * q ≤ 2 * t + 1 ∧ (2 * q = 2 * t + 1 → q % 2 = 0)) :
    Between (t * 2 ^ ((k : ℤ) - 1074)) (k * 2 ^ 52 + q) := by
  have here := sizeAt_compose normal fits
  have parity : (k * 2 ^ 52 + q) % 2 = q % 2 := by omega
  have unit_pos : (0 : ℚ) < 2 ^ ((k : ℤ) - 1074) := zpow_pos two_pos _
  have unit_ge : (2 : ℚ) ^ ((k : ℤ) - 1074) ≤ unitAt (k * 2 ^ 52 + q) := by
    refine zpow_le_zpow_right₀ one_le_two ?_
    unfold exponentAt
    omega
  rw [← parity] at above below
  constructor
  · intro a next
    rw [middle_eq_sub, next, here]
    -- Below a power of two the units are half as large, but then nothing was rounded up.
    by_cases same : exponentAt a = (k : ℤ) - 1074
    · rw [unitAt, same]
      rcases below.1.lt_or_eq with less | tie
      · exact .inl (by nlinarith)
      · exact .inr ⟨by linear_combination (2 : ℚ) ^ ((k : ℤ) - 1074) / 2 * tie, below.2 tie⟩
    · have edge : q = 2 ^ 52 ∧ k ≠ 0 := by
        unfold exponentAt at same
        omega
      have reached := low.resolve_left edge.2
      have half := unitAt_pos a
      rw [edge.1]
      push_cast
      exact .inl (by nlinarith)
  · rw [middle_eq, here]
    rcases above.1.lt_or_eq with less | tie
    · exact .inl (by nlinarith)
    · rcases unit_ge.lt_or_eq with wide | same
      · exact .inl (by nlinarith)
      · refine .inr ⟨?_, above.2 tie⟩
        rw [← same]
        linear_combination (2 : ℚ) ^ ((k : ℤ) - 1074) / 2 * tie

theorem between_of_divHalfEven {N D k : ℕ} (hD : 0 < D) (high : (N / D : ℚ) < 2 ^ 53)
    (low : k = 0 ∨ 2 ^ 52 ≤ (N / D : ℚ)) :
    Between (N / D * 2 ^ ((k : ℤ) - 1074)) (k * 2 ^ 52 + divHalfEven N D) := by
  have positive : (0 : ℚ) < D := by exact_mod_cast hD
  have few : N / D < 2 ^ 53 := by
    rw [div_lt_iff₀ positive] at high
    rw [Nat.div_lt_iff_lt_mul hD]
    exact_mod_cast high
  have many : k = 0 ∨ 2 ^ 52 ≤ N / D := by
    refine low.imp_right fun reached => ?_
    rw [le_div_iff₀ positive] at reached
    rw [Nat.le_div_iff_mul_le hD]
    exact_mod_cast reached
  have upper := divHalfEven_le N D
  have lower := le_divHalfEven N D
  obtain ⟨above, above_tie⟩ := two_mul_le_of_divHalfEven N hD
  obtain ⟨below, below_tie⟩ := divHalfEven_two_mul_le N hD
  generalize divHalfEven N D = q at *
  refine between_of_mantissa low (many.imp_right fun reached => reached.trans lower)
    (by omega) ⟨?_, fun tie => above_tie ?_⟩ ⟨?_, fun tie => below_tie ?_⟩
  · rw [mul_div_assoc', div_le_iff₀ positive, add_mul, one_mul, mul_assoc]
    exact_mod_cast above
  · rw [mul_div_assoc', div_eq_iff positive.ne', add_mul, one_mul, mul_assoc] at tie
    exact_mod_cast tie
  · rw [← mul_le_mul_iff_left₀ positive, add_mul, one_mul, mul_assoc, mul_assoc,
      div_mul_cancel₀ _ positive.ne']
    exact_mod_cast below
  · rw [← mul_left_inj' positive.ne', add_mul, one_mul, mul_assoc, mul_assoc,
      div_mul_cancel₀ _ positive.ne'] at tie
    exact_mod_cast tie

theorem between_unboundedBits {n d : ℕ} (hn : 0 < n) (hd : 0 < d) :
    Between (n / d) (unboundedBits n d) := by
  obtain ⟨least, high, low⟩ := exponentOf_bounds hn hd
  unfold unboundedBits
  generalize exponentOf n d = e at *
  obtain ⟨k, rfl⟩ : ∃ k : ℕ, e = (k : ℤ) - 1074 := ⟨(e + 1074).toNat, by omega⟩
  have up_pos : 0 < (scaled 1 ((k : ℤ) - 1074)).1 := by
    simp only [scaled, Nat.one_mul]
    exact Nat.pow_pos two_pos
  have field : ((k : ℤ) - 1074 + 1074).toNat = k := by omega
  have unit := scaled_eq 1 ((k : ℤ) - 1074)
  have unit_pos : (0 : ℚ) < 2 ^ ((k : ℤ) - 1074) := zpow_pos two_pos _
  have down_pos := scaled_pos 1 ((k : ℤ) - 1074)
  generalize (scaled 1 ((k : ℤ) - 1074)).1 = up at *
  generalize (scaled 1 ((k : ℤ) - 1074)).2 = down at *
  -- The fraction to round is the quotient, counted in units.
  have count : (n / d : ℚ) = (n * down : ℕ) / (d * up : ℕ) * 2 ^ ((k : ℤ) - 1074) := by
    have d_pos : (0 : ℚ) < d := by exact_mod_cast hd
    have up_pos : (0 : ℚ) < up := by exact_mod_cast up_pos
    have down_pos : (0 : ℚ) < down := by exact_mod_cast down_pos
    rw [Nat.cast_one, one_mul] at unit
    rw [← unit]
    push_cast
    field_simp
  rw [field]
  rw [count] at high low ⊢
  refine between_of_divHalfEven (Nat.mul_pos hd up_pos) ?_ ?_
  · exact lt_of_mul_lt_mul_right high unit_pos.le
  · rcases low with least | reached
    · exact .inl (by omega)
    · exact .inr (le_of_mul_le_mul_right reached unit_pos)

theorem nearest_zero : Nearest 0 0 := by
  refine nearest_zero_of_lt ?_
  rw [middle_eq, sizeAt_zero, zero_add]
  exact half_pos (unitAt_pos 0)

theorem exists_nearest (n : ℕ) {d : ℕ} (hd : 0 < d) :
    ∃ b, Nearest (n / d) b ∧ roundBits n d = min b infinityBits := by
  rcases Nat.eq_zero_or_pos n with rfl | hn
  · refine ⟨0, ?_, by rw [roundBits, if_pos rfl, Nat.zero_min]⟩
    rw [Nat.cast_zero, zero_div]
    exact nearest_zero
  · exact ⟨_, (between_unboundedBits hn hd).nearest, roundBits_eq hn d⟩

/-! ## Doubles of a sign and a size -/

def toRat (x : Double) : ℚ := (if x.negative then -1 else 1) * sizeAt x.sizeBits

/-- No finite double is nearer to a number, and of two as near the mantissa is the even one. -/
structure IsNearest (x : Double) (v : ℚ) : Prop where
  finite : x.isFinite = true
  least : ∀ y : Double, y.isFinite = true → |v - x.toRat| ≤ |v - y.toRat|
  even : ∀ y : Double, y.isFinite = true → y.toRat ≠ x.toRat → |v - y.toRat| = |v - x.toRat| →
    x.mantissa % 2 = 0

/-- The midpoint behind the largest finite number. -/
def limit : ℚ := 2 ^ 1024 - 2 ^ 970

theorem infinityBits_lt : infinityBits < 2 ^ 63 := by decide +kernel

section
variable {size : ℕ} (negative : Bool)

theorem toNat_ofSizeBits (fits : size < 2 ^ 63) :
    (ofSizeBits negative size).bits.toNat = if negative then 2 ^ 63 + size else size := by
  unfold ofSizeBits
  rw [UInt64.toNat_ofNat']
  split <;> omega

theorem sizeBits_ofSizeBits (fits : size < 2 ^ 63) : (ofSizeBits negative size).sizeBits = size := by
  rw [sizeBits, toNat_ofSizeBits negative fits]
  split <;> omega

theorem negative_ofSizeBits (fits : size < 2 ^ 63) :
    (ofSizeBits negative size).negative = negative := by
  rw [Double.negative, toNat_ofSizeBits negative fits]
  cases negative with
  | false => exact decide_eq_false (Nat.not_le.2 fits)
  | true => exact decide_eq_true (Nat.le_add_right _ _)

end

theorem sizeBits_lt (x : Double) : x.sizeBits < 2 ^ 63 := Nat.mod_lt _ (Nat.pow_pos two_pos)

theorem ofSizeBits_self (x : Double) : ofSizeBits x.negative x.sizeBits = x := by
  have same : (ofSizeBits x.negative x.sizeBits).bits.toNat = x.bits.toNat := by
    have small := x.bits.toNat_lt
    rw [toNat_ofSizeBits _ x.sizeBits_lt, Double.negative, sizeBits]
    simp only [decide_eq_true_eq]
    split <;> omega
  exact congrArg Double.mk (UInt64.toNat_inj.1 same)

theorem eq_infinity {x : Double} (h : x.isInfinite = true) : x = infinity x.negative := by
  conv => lhs; rw [← ofSizeBits_self x, beq_iff_eq.1 h]
  rfl

theorem isNaN_of_finite {x : Double} (finite : x.isFinite = true) : x.isNaN = false :=
  decide_eq_false (Nat.lt_asymm (of_decide_eq_true finite))

theorem isInfinite_of_finite {x : Double} (finite : x.isFinite = true) : x.isInfinite = false :=
  beq_eq_false_iff_ne.2 (Nat.ne_of_lt (of_decide_eq_true finite))

theorem isInfinite_of_not_finite {x : Double} (finite : x.isFinite = false)
    (number : x.isNaN = false) : x.isInfinite = true := by
  simp only [isFinite, isNaN, isInfinite, decide_eq_false_iff_not, beq_iff_eq] at finite number ⊢
  omega

theorem toRat_ofSizeBits (negative : Bool) {size : ℕ} (fits : size < 2 ^ 63) :
    (ofSizeBits negative size).toRat = (if negative then -1 else 1) * sizeAt size := by
  rw [toRat, sizeBits_ofSizeBits negative fits, negative_ofSizeBits negative fits]

theorem mantissa_mod_two (x : Double) : x.mantissa % 2 = x.sizeBits % 2 := by
  unfold mantissa
  split <;> omega

theorem abs_sub_size_le {v : ℚ} (hv : 0 ≤ v) (negative : Bool) (y : Double) :
    |v - sizeAt y.sizeBits| ≤ |(if negative then -1 else 1) * v - y.toRat| := by
  have size := sizeAt_nonneg y.sizeBits
  have apart : |v - sizeAt y.sizeBits| ≤ |v + sizeAt y.sizeBits| :=
    abs_le_abs (by linarith) (by linarith)
  unfold toRat
  cases negative <;> cases y.negative
  · simp
  · simpa using apart
  · have flip := abs_neg (v + sizeAt y.sizeBits)
    rw [neg_add, ← sub_eq_add_neg] at flip
    simpa [flip] using apart
  · have flip := abs_neg (v - sizeAt y.sizeBits)
    rw [neg_sub, sub_eq_neg_add] at flip
    simp [flip]

theorem abs_sub_toRat_ofSizeBits (negative : Bool) {size : ℕ} (fits : size < 2 ^ 63) (v : ℚ) :
    |(if negative then -1 else 1) * v - (ofSizeBits negative size).toRat| = |v - sizeAt size| := by
  rw [toRat_ofSizeBits negative fits, ← mul_sub, abs_mul]
  cases negative <;> simp

theorem Nearest.isNearest {v : ℚ} {b : ℕ} (h : Nearest v b) (hv : 0 ≤ v) (finite : b < infinityBits)
    (negative : Bool) : (ofSizeBits negative b).IsNearest ((if negative then -1 else 1) * v) := by
  have fits : b < 2 ^ 63 := finite.trans infinityBits_lt
  have distance := abs_sub_toRat_ofSizeBits negative fits v
  have size := sizeBits_ofSizeBits negative fits
  refine ⟨?_, fun y _ => ?_, fun y _ other tie => ?_⟩
  · rw [isFinite, size]
    exact decide_eq_true finite
  · rw [distance]
    exact (h.least y.sizeBits).trans (abs_sub_size_le hv negative y)
  · rw [distance] at tie
    have near := le_antisymm ((abs_sub_size_le hv negative y).trans tie.le) (h.least y.sizeBits)
    rw [mantissa_mod_two, size]
    by_cases same : y.sizeBits = b
    -- Two opposite numbers are as near only to zero, where no number but zero is nearest.
    · have opposite : y.negative ≠ negative ∧ sizeAt b ≠ 0 := by
        rw [toRat, same, toRat_ofSizeBits negative fits] at other
        constructor
        · rintro rfl
          exact other rfl
        · intro zero
          rw [zero, mul_zero, mul_zero] at other
          exact other rfl
      have positive : 0 < sizeAt b := lt_of_le_of_ne (sizeAt_nonneg b) opposite.2.symm
      have reflected : |v + sizeAt b| = |v - sizeAt b| := by
        rw [← tie, toRat, same, Bool.eq_not.2 opposite.1]
        have flip := abs_neg (v + sizeAt b)
        rw [neg_add, ← sub_eq_add_neg] at flip
        cases negative
        · simp
        · simp [flip]
      have zero : v = 0 := by
        rw [abs_of_nonneg (add_nonneg hv positive.le)] at reflected
        rcases abs_cases (v - sizeAt b) with ⟨value, -⟩ | ⟨value, -⟩ <;> linarith
      rw [zero] at h
      rw [h.unique nearest_zero]
    · exact h.even y.sizeBits same near

theorem middle_largest : middle (infinityBits - 1) = limit := by
  have largest : infinityBits - 1 = 2045 * 2 ^ 52 + (2 ^ 53 - 1) := by decide +kernel
  have past : infinityBits - 1 + 1 = 2045 * 2 ^ 52 + 2 ^ 53 := by decide +kernel
  rw [middle, past, largest, sizeAt_compose (.inr (by omega)) (by omega),
    sizeAt_compose (.inr (by omega)) (le_refl _), limit]
  have exponent : ((2045 : ℕ) : ℤ) - 1074 = (971 : ℕ) := by norm_num
  have unit : (2 : ℚ) ^ 971 = 2 * 2 ^ 970 := pow_succ' 2 970
  have top : (2 : ℚ) ^ 1024 = 2 ^ 54 * 2 ^ 970 := pow_add 2 54 970
  rw [exponent, zpow_natCast, unit, top]
  generalize (2 : ℚ) ^ 970 = half
  norm_num
  ring

def Rounded (negative : Bool) (v : ℚ) (x : Double) : Prop :=
  ∃ b, Nearest v b ∧ x = ofSizeBits negative (min b infinityBits)

theorem ofRatio_rounded (negative : Bool) (n : ℕ) {d : ℕ} (hd : 0 < d) :
    Rounded negative (n / d) (ofRatio negative n d) := by
  obtain ⟨b, nearest, bits⟩ := exists_nearest n hd
  exact ⟨b, nearest, by rw [ofRatio, bits]⟩

theorem Nearest.infinityBits_le_iff {v : ℚ} {b : ℕ} (h : Nearest v b) :
    infinityBits ≤ b ↔ limit ≤ v := by
  have odd : (infinityBits - 1) % 2 = 1 := by decide +kernel
  have next : infinityBits - 1 + 1 = infinityBits := by decide +kernel
  rw [← middle_largest, ← h.lt_iff odd, Nat.lt_iff_add_one_le, next]

namespace Rounded

variable {negative : Bool} {v : ℚ} {x : Double}

theorem eq_infinity (h : Rounded negative v x) (large : limit ≤ v) : x = infinity negative := by
  obtain ⟨b, nearest, rfl⟩ := h
  rw [Nat.min_eq_right (nearest.infinityBits_le_iff.2 large), infinity]

theorem isNearest (h : Rounded negative v x) (hv : 0 ≤ v) (small : v < limit) :
    x.IsNearest ((if negative then -1 else 1) * v) := by
  obtain ⟨b, nearest, rfl⟩ := h
  have finite : b < infinityBits := Nat.not_le.1 (mt nearest.infinityBits_le_iff.1 (not_le.2 small))
  rw [Nat.min_eq_left finite.le]
  exact nearest.isNearest hv finite negative

theorem isNaN_eq_false (h : Rounded negative v x) : x.isNaN = false := by
  obtain ⟨b, -, rfl⟩ := h
  have fits : min b infinityBits < 2 ^ 63 := (Nat.min_le_right _ _).trans_lt infinityBits_lt
  rw [isNaN, sizeBits_ofSizeBits negative fits]
  exact decide_eq_false (Nat.not_lt.2 (Nat.min_le_right _ _))

theorem eq_of_nearest (h : Rounded negative v x) {b : ℕ} (nearest : Nearest v b)
    (finite : b < infinityBits) : x = ofSizeBits negative b := by
  obtain ⟨b', nearest', rfl⟩ := h
  rw [nearest'.unique nearest, Nat.min_eq_left finite.le]

end Rounded

end Double

end PolicyValues
