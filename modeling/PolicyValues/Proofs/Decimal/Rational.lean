import Mathlib.Algebra.Order.Field.Rat
import Mathlib.Order.Compare
import Mathlib.Tactic.FieldSimp
import Mathlib.Tactic.Linarith
import PolicyValues.Proofs.Decimal

/-!
Decimals as rational numbers. They compare as the numbers do, and rounding a size to the places
that fit never carries it past another size.
-/
namespace PolicyValues

theorem divHalfEven_mono {m n : ℕ} (h : m ≤ n) (d : ℕ) : divHalfEven m d ≤ divHalfEven n d := by
  rcases Nat.lt_or_eq_of_le (Nat.div_le_div_right (c := d) h) with less | same
  · calc divHalfEven m d ≤ m / d + 1 := divHalfEven_le m d
      _ ≤ n / d := less
      _ ≤ divHalfEven n d := le_divHalfEven n d
  · have left := Nat.div_add_mod m d
    have right := Nat.div_add_mod n d
    rw [same] at left
    have remainders : m % d ≤ n % d := by omega
    simp only [divHalfEven, same]
    split <;> split <;> omega

theorem divHalfEven_mul_mul (n d : ℕ) {k : ℕ} (h : 0 < k) :
    divHalfEven (n * k) (d * k) = divHalfEven n d := by
  have below : 2 * (n % d * k) < d * k ↔ 2 * (n % d) < d := by
    rw [← Nat.mul_assoc]
    exact Nat.mul_lt_mul_right h
  have half : 2 * (n % d * k) = d * k ↔ 2 * (n % d) = d := by
    rw [← Nat.mul_assoc]
    exact Nat.mul_left_inj (Nat.ne_of_gt h)
  simp only [divHalfEven, Nat.mul_div_mul_right _ _ h, Nat.mul_mod_mul_right, below, half]

theorem le_divHalfEven_iff {bound : ℕ} (even : bound % 2 = 0) (positive : 0 < bound) (n : ℕ)
    {d : ℕ} (h : 0 < d) : bound ≤ divHalfEven n d ↔ (2 * bound - 1) * d ≤ 2 * n := by
  obtain ⟨less, rfl⟩ : ∃ less, bound = less + 1 := ⟨bound - 1, by omega⟩
  have whole := Nat.div_add_mod' n d
  have rest := Nat.mod_lt n h
  have expand : (2 * (less + 1) - 1) * d = 2 * (less * d) + d := by
    rw [show 2 * (less + 1) - 1 = 2 * less + 1 by omega, Nat.add_mul, Nat.one_mul, Nat.mul_assoc]
  rw [expand]
  rcases Nat.lt_trichotomy (n / d) less with below | at_bound | above
  · have room : (n / d + 1) * d ≤ less * d := Nat.mul_le_mul_right d below
    have nearest := divHalfEven_le n d
    rw [Nat.add_mul, Nat.one_mul] at room
    omega
  · rw [at_bound] at whole
    simp only [divHalfEven, at_bound]
    split <;> omega
  · have room : (less + 1) * d ≤ n / d * d := Nat.mul_le_mul_right d above
    have nearest := le_divHalfEven n d
    rw [Nat.add_mul, Nat.one_mul] at room
    omega

theorem divHalfEven_mul_le (n d : ℕ) {k : ℕ} (h : 0 < k) :
    divHalfEven n (d * k) ≤ divHalfEven n d := by
  calc divHalfEven n (d * k) ≤ divHalfEven (n * k) (d * k) :=
        divHalfEven_mono (Nat.le_mul_of_pos_right n h) _
    _ = divHalfEven n d := divHalfEven_mul_mul n d h

theorem divHalfEven_mul_le_of_dvd {m n d : ℕ} (h : m ≤ n) (positive : 0 < d) (multiple : d ∣ n) :
    divHalfEven m d * d ≤ n := by
  obtain ⟨k, rfl⟩ := multiple
  rw [Nat.mul_comm d k] at h ⊢
  apply Nat.mul_le_mul_right d
  rw [← divHalfEven_mul positive k]
  exact divHalfEven_mono h d

theorem le_divHalfEven_mul_of_dvd {m n d : ℕ} (h : m ≤ n) (positive : 0 < d) (multiple : d ∣ m) :
    m ≤ divHalfEven n d * d := by
  obtain ⟨k, rfl⟩ := multiple
  rw [Nat.mul_comm d k] at h ⊢
  apply Nat.mul_le_mul_right d
  rw [← divHalfEven_mul positive k]
  exact divHalfEven_mono h d

namespace Decimal

def toRat (d : Decimal) : ℚ := (if d.negative then -1 else 1) * (d.mantissa / 10 ^ d.scale)

theorem signedAt_eq (d : Decimal) {scale : ℕ} (h : d.scale ≤ scale) :
    (d.signedAt scale : ℚ) = d.toRat * 10 ^ scale := by
  obtain ⟨places, rfl⟩ := Nat.exists_eq_add_of_le h
  have size : ((d.mantissa * 10 ^ places : ℕ) : ℚ) =
      d.mantissa / 10 ^ d.scale * 10 ^ (d.scale + places) := by
    rw [pow_add]
    push_cast
    field_simp
  rw [signedAt, toRat, Nat.add_sub_cancel_left]
  cases d.negative with
  | false => simpa using size
  | true => simpa [neg_mul] using size

theorem equal_iff_toRat {a b : Decimal} : a.Equal b ↔ a.toRat = b.toRat := by
  have unit : (10 : ℚ) ^ max a.scale b.scale ≠ 0 := by positivity
  rw [Equal, ← Int.cast_inj (α := ℚ), signedAt_eq a (Nat.le_max_left _ _),
    signedAt_eq b (Nat.le_max_right _ _)]
  exact mul_left_inj' unit

theorem compare_eq_cmp_toRat (a b : Decimal) : a.compare b = cmp a.toRat b.toRat := by
  have unit : (0 : ℚ) < 10 ^ max a.scale b.scale := by positivity
  have scaled : StrictMono fun q : ℚ => q * 10 ^ max a.scale b.scale :=
    fun _ _ less => mul_lt_mul_of_pos_right less unit
  rw [← scaled.cmp_map_eq a.toRat b.toRat, ← signedAt_eq a (Nat.le_max_left _ _),
    ← signedAt_eq b (Nat.le_max_right _ _), Int.cast_strictMono.cmp_map_eq, cmp_eq_compare]
  rfl

theorem toRat_neg (d : Decimal) : d.neg.toRat = -d.toRat := by
  rw [toRat, toRat, neg]
  cases d.negative <;> simp

theorem signedAt_normalize (d : Decimal) : d.normalize.signedAt d.scale = d.signedAt d.scale := by
  have size := strip_mul d.mantissa d.scale
  simp only [signedAt, normalize, size, Nat.sub_self, Nat.pow_zero, Nat.mul_one, isZero]
  cases empty : d.mantissa == 0 with
  | false => simp only [Bool.not_false, Bool.and_true]
  | true => simp only [beq_iff_eq.1 empty, Int.natCast_zero, Int.neg_zero, ite_self]

theorem toRat_normalize (d : Decimal) : d.normalize.toRat = d.toRat := by
  have unit : (10 : ℚ) ^ d.scale ≠ 0 := by positivity
  have same := congrArg (Int.cast (R := ℚ)) d.signedAt_normalize
  rw [signedAt_eq _ (strip_snd_le _ _), signedAt_eq d (Nat.le_refl _)] at same
  exact mul_right_cancel₀ unit same

theorem scale_eq_of_mul_pow {fewer scale mantissa size : ℕ} (le : fewer ≤ scale)
    (same : mantissa * 10 ^ (scale - fewer) = size) (last : scale ≠ 0 → size % 10 ≠ 0) :
    fewer = scale := by
  by_contra different
  obtain ⟨more, h⟩ : ∃ more, scale - fewer = more + 1 :=
    Nat.exists_eq_add_one.2 (Nat.sub_pos_of_lt (Nat.lt_of_le_of_ne le different))
  apply last (by omega)
  rw [← same, h, Nat.pow_succ, ← Nat.mul_assoc]
  exact Nat.mul_mod_left _ _

theorem Normal.eq_of_scale_le {a b : Decimal} (ha : a.Normal) (hb : b.Normal)
    (le : a.scale ≤ b.scale) (same : a.toRat = b.toRat) : a = b := by
  have size := congrArg (· * (10 : ℚ) ^ b.scale) same
  simp only [← signedAt_eq a le, ← signedAt_eq b (Nat.le_refl _), Int.cast_inj, signedAt,
    Nat.sub_self, Nat.pow_zero, Nat.mul_one] at size
  have magnitude : a.mantissa * 10 ^ (b.scale - a.scale) = b.mantissa := by
    revert size
    split <;> split <;> omega
  have places := scale_eq_of_mul_pow le magnitude (mod_ne_of_strip hb.stripped)
  rw [places, Nat.sub_self, Nat.pow_zero, Nat.mul_one] at magnitude size
  refine mk_eq ?_ magnitude places
  cases left : a.negative <;> cases right : b.negative <;>
    simp only [left, right, Bool.false_eq_true, if_true, if_false] at size ⊢
  · exact absurd magnitude (by have := hb.mantissa_ne right; omega)
  · exact absurd magnitude (by have := ha.mantissa_ne left; omega)

theorem Normal.eq_of_toRat {a b : Decimal} (ha : a.Normal) (hb : b.Normal)
    (same : a.toRat = b.toRat) : a = b := by
  rcases Nat.le_total a.scale b.scale with le | le
  · exact ha.eq_of_scale_le hb le same
  · exact (hb.eq_of_scale_le ha le same.symm).symm

def count (d : Decimal) : ℕ := d.mantissa * 10 ^ (28 - d.scale)

theorem toRat_eq_count (d : Decimal) :
    d.toRat = (if d.negative then -1 else 1) * (d.count / 10 ^ 28) := by
  have counted := signedAt_eq d d.scale_le
  rw [eq_comm, ← eq_div_iff (by positivity)] at counted
  rw [counted, signedAt, count]
  cases d.negative <;> simp [neg_div]

/-- A size kept at the places of a decimal: all of them, or as many as there is room for. -/
structure Rounds (size : ℕ) (d : Decimal) : Prop where
  nearest : d.mantissa = divHalfEven size (10 ^ (28 - d.scale))
  exact_or_full : d.count = size ∨
    d.scale < 28 ∧ 2 ^ 96 ≤ divHalfEven size (10 ^ (28 - (d.scale + 1)))

section
variable {m n : ℕ} {a b : Decimal}

theorem room_of_full {d : ℕ} (positive : 0 < d) (full : 2 ^ 96 ≤ divHalfEven n d) :
    2 ^ 96 ≤ 10 * divHalfEven n (d * 10) := by
  have half : (2 * 2 ^ 96 - 1) * d ≤ 2 * n :=
    (le_divHalfEven_iff (by decide) (by decide) n positive).1 full
  have tenth : 7922816251426433759354395034 ≤ divHalfEven n (d * 10) := by
    apply (le_divHalfEven_iff (by decide) (by decide) n (by omega)).2
    omega
  omega

theorem unit_dvd {s t : ℕ} (h : s ≤ t) : 10 ^ (28 - t) ∣ 10 ^ (28 - s) :=
  Nat.pow_dvd_pow 10 (Nat.sub_le_sub_left h 28)

theorem Rounds.count_eq (h : a.Rounds n) :
    a.count = divHalfEven n (10 ^ (28 - a.scale)) * 10 ^ (28 - a.scale) := by
  rw [count, h.nearest]

theorem Rounds.count_le_of_scale_lt (ha : a.Rounds m) (hb : b.Rounds n) (h : m ≤ n)
    (coarser : b.scale < a.scale) : a.count ≤ b.count := by
  rcases hb.exact_or_full with exact_size | ⟨less, full⟩
  · have multiple : 10 ^ (28 - a.scale) ∣ n := by
      rw [← exact_size, count]
      exact Dvd.dvd.mul_left (unit_dvd (Nat.le_of_lt coarser)) _
    rw [exact_size, ha.count_eq]
    exact divHalfEven_mul_le_of_dvd h (by positivity) multiple
  · have room := room_of_full (by positivity) full
    rw [← Nat.pow_succ, show (28 - (b.scale + 1)).succ = 28 - b.scale by omega,
      ← hb.nearest] at room
    calc a.count ≤ 2 ^ 96 * 10 ^ (28 - a.scale) :=
          Nat.mul_le_mul_right _ (Nat.le_of_lt a.mantissa_lt)
      _ ≤ 10 * b.mantissa * 10 ^ (28 - a.scale) := Nat.mul_le_mul_right _ room
      _ ≤ 10 * b.mantissa * 10 ^ (28 - (b.scale + 1)) :=
          Nat.mul_le_mul_left _ (Nat.pow_le_pow_right (by decide) (Nat.sub_le_sub_left coarser 28))
      _ = b.count := by
          rw [count, show 28 - b.scale = (28 - (b.scale + 1)) + 1 by omega, Nat.pow_succ,
            Nat.mul_comm 10, Nat.mul_assoc, Nat.mul_comm 10]

theorem Rounds.count_le_of_lt_scale (ha : a.Rounds m) (hb : b.Rounds n) (h : m ≤ n)
    (finer : a.scale < b.scale) : a.count ≤ b.count := by
  rcases ha.exact_or_full with exact_size | ⟨_, full⟩
  · have multiple : 10 ^ (28 - b.scale) ∣ m := by
      rw [← exact_size, count]
      exact Dvd.dvd.mul_left (unit_dvd (Nat.le_of_lt finer)) _
    rw [exact_size, hb.count_eq]
    exact le_divHalfEven_mul_of_dvd h (by positivity) multiple
  · obtain ⟨k, scale⟩ := unit_dvd (show a.scale + 1 ≤ b.scale from finer)
    have positive : 0 < k := Nat.pos_of_ne_zero fun zero => by
      rw [zero, Nat.mul_zero] at scale
      exact absurd scale (by positivity)
    have beyond : 2 ^ 96 ≤ b.mantissa := by
      calc 2 ^ 96 ≤ divHalfEven m (10 ^ (28 - (a.scale + 1))) := full
        _ ≤ divHalfEven m (10 ^ (28 - b.scale)) := by
            rw [scale]
            exact divHalfEven_mul_le m _ positive
        _ ≤ divHalfEven n (10 ^ (28 - b.scale)) := divHalfEven_mono h _
        _ = b.mantissa := hb.nearest.symm
    exact absurd b.mantissa_lt (Nat.not_lt.2 beyond)

/-- Rounding never carries a size past a larger one, whatever places the two have. -/
theorem Rounds.count_mono (ha : a.Rounds m) (hb : b.Rounds n) (h : m ≤ n) : a.count ≤ b.count := by
  rcases Nat.lt_trichotomy a.scale b.scale with finer | same | coarser
  · exact ha.count_le_of_lt_scale hb h finer
  · rw [ha.count_eq, hb.count_eq, same]
    exact Nat.mul_le_mul_right _ (divHalfEven_mono h _)
  · exact ha.count_le_of_scale_lt hb h coarser

theorem Rounds.count_zero (h : a.Rounds 0) : a.count = 0 := by
  have nothing := divHalfEven_mul (show 0 < 10 ^ (28 - a.scale) by positivity) 0
  rw [Nat.zero_mul] at nothing
  rw [h.count_eq, nothing, Nat.zero_mul]

end

section
variable {negative : Bool} {size scale : ℕ} {d : Decimal}

theorem fit?_eq_some {target : ℕ} {le : target ≤ 28} (within : target ≤ scale)
    (h : fit? negative size scale target le = some d) :
    d.negative = negative ∧ d.scale ≤ target ∧
      d.mantissa = divHalfEven size (10 ^ (scale - d.scale)) ∧
      (d.scale < target → 2 ^ 96 ≤ divHalfEven size (10 ^ (scale - (d.scale + 1)))) := by
  induction target with
  | zero =>
    unfold fit? at h
    simp only at h
    split at h
    · obtain rfl := Option.some.inj h
      exact ⟨rfl, Nat.le_refl _, rfl, fun less => absurd less (Nat.lt_irrefl _)⟩
    · simp only [reduceCtorEq] at h
  | succ target ih =>
    unfold fit? at h
    simp only at h
    split at h
    · obtain rfl := Option.some.inj h
      exact ⟨rfl, Nat.le_refl _, rfl, fun less => absurd less (Nat.lt_irrefl _)⟩
    · rename_i beyond
      obtain ⟨sign, less, nearest, full⟩ := ih (Nat.le_of_succ_le within) h
      refine ⟨sign, Nat.le_succ_of_le less, nearest, fun _ => ?_⟩
      rcases Nat.lt_or_eq_of_le less with below | last
      · exact full below
      · rw [last]
        exact Nat.not_lt.1 beyond

theorem fit?_eq_none {target : ℕ} {le : target ≤ 28}
    (h : fit? negative size scale target le = none) : 2 ^ 96 ≤ divHalfEven size (10 ^ scale) := by
  induction target with
  | zero =>
    unfold fit? at h
    simp only at h
    split at h
    · simp only [reduceCtorEq] at h
    · rename_i beyond
      exact Nat.not_lt.1 beyond
  | succ target ih =>
    unfold fit? at h
    simp only at h
    split at h
    · simp only [reduceCtorEq] at h
    · exact ih h

theorem fit?_eq_none_iff {le : scale ≤ 28} :
    fit? negative size scale scale le = none ↔ 2 ^ 96 ≤ divHalfEven size (10 ^ scale) := by
  constructor
  · exact fit?_eq_none
  · intro beyond
    by_contra fits
    obtain ⟨d, some_d⟩ := Option.ne_none_iff_exists'.1 fits
    obtain ⟨_, less, nearest, _⟩ := fit?_eq_some (Nat.le_refl _) some_d
    have split_unit : 10 ^ scale = 10 ^ (scale - d.scale) * 10 ^ d.scale := by
      rw [← Nat.pow_add, Nat.sub_add_cancel less]
    rw [split_unit] at beyond
    have bound := divHalfEven_mul_le size (10 ^ (scale - d.scale)) (k := 10 ^ d.scale)
      (by positivity)
    exact absurd d.mantissa_lt (Nat.not_lt.2 (by rw [nearest]; exact Nat.le_trans beyond bound))

theorem rounds_of_fit? {le : scale ≤ 28} (h : fit? negative size scale scale le = some d) :
    d.Rounds (size * 10 ^ (28 - scale)) := by
  obtain ⟨_, less, nearest, full⟩ := fit?_eq_some (Nat.le_refl _) h
  have unit {places : ℕ} (within : places ≤ scale) :
      divHalfEven (size * 10 ^ (28 - scale)) (10 ^ (28 - places)) =
        divHalfEven size (10 ^ (scale - places)) := by
    rw [show 28 - places = (scale - places) + (28 - scale) by omega, Nat.pow_add]
    exact divHalfEven_mul_mul _ _ (by positivity)
  refine ⟨nearest.trans (unit less).symm, ?_⟩
  rcases Nat.lt_or_eq_of_le less with rounded | whole
  · right
    refine ⟨Nat.lt_of_lt_of_le rounded le, ?_⟩
    rw [unit rounded]
    exact full rounded
  · left
    have exact_size := divHalfEven_mul (show 0 < 1 by decide) size
    rw [Nat.mul_one] at exact_size
    rw [count, nearest, whole, Nat.sub_self, Nat.pow_zero, exact_size]

theorem count_eq_iff_of_fit? {le : scale ≤ 28} (h : fit? negative size scale scale le = some d)
    (last : scale ≠ 0 → size % 10 ≠ 0) :
    d.count = size * 10 ^ (28 - scale) ↔ size < 2 ^ 96 := by
  constructor
  · intro kept
    obtain ⟨_, less, _, _⟩ := fit?_eq_some (Nat.le_refl _) h
    have size_eq : d.mantissa * 10 ^ (scale - d.scale) = size := by
      rw [count, show 28 - d.scale = (scale - d.scale) + (28 - scale) by omega, Nat.pow_add,
        ← Nat.mul_assoc] at kept
      exact Nat.eq_of_mul_eq_mul_right (by positivity) kept
    have places := scale_eq_of_mul_pow less size_eq last
    rw [← size_eq, places, Nat.sub_self, Nat.pow_zero, Nat.mul_one]
    exact d.mantissa_lt
  · intro fits
    rw [fit?_of_lt negative le fits] at h
    obtain rfl := Option.some.inj h
    rfl

end

end Decimal

end PolicyValues
