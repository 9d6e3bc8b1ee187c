import Mathlib.Algebra.Order.Field.Power
import Mathlib.Tactic.FieldSimp
import Mathlib.Tactic.Linarith
import Mathlib.Tactic.Positivity
import Mathlib.Tactic.Ring
import PolicyValues.Double.Basic

/-!
The numbers that size bits stand for. They grow with the bits, each by one unit in the last place,
so the nearest one to a number is told by the midpoints around it. Past the largest finite size they
go on as if there were more exponents, which makes the first size of infinity stand for `2 ^ 1024`.
-/
namespace PolicyValues.Double

def mantissaAt (b : ℕ) : ℕ := if b / 2 ^ 52 = 0 then b else 2 ^ 52 + b % 2 ^ 52

def exponentAt (b : ℕ) : ℤ := (max (b / 2 ^ 52) 1 : ℕ) - 1075

def unitAt (b : ℕ) : ℚ := 2 ^ exponentAt b

def sizeAt (b : ℕ) : ℚ := mantissaAt b * unitAt b

def middle (b : ℕ) : ℚ := (sizeAt b + sizeAt (b + 1)) / 2

theorem unitAt_pos (b : ℕ) : 0 < unitAt b := zpow_pos two_pos _

theorem sizeAt_compose {k q : ℕ} (low : k = 0 ∨ 2 ^ 52 ≤ q) (high : q ≤ 2 ^ 53) :
    sizeAt (k * 2 ^ 52 + q) = q * 2 ^ ((k : ℤ) - 1074) := by
  rcases Nat.lt_or_ge q (2 ^ 52) with small | normal
  · obtain rfl : k = 0 := low.resolve_right (Nat.not_le.2 small)
    have field : (0 * 2 ^ 52 + q) / 2 ^ 52 = 0 := by omega
    simp only [sizeAt, unitAt, mantissaAt, exponentAt, field, if_true]
    norm_num
  · rcases Nat.lt_or_ge q (2 ^ 53) with fits | full
    · have field : (k * 2 ^ 52 + q) / 2 ^ 52 = k + 1 := by omega
      have fraction : 2 ^ 52 + (k * 2 ^ 52 + q) % 2 ^ 52 = q := by omega
      have exponent : ((max (k + 1) 1 : ℕ) : ℤ) - 1075 = k - 1074 := by omega
      simp only [sizeAt, unitAt, mantissaAt, exponentAt, field, fraction, exponent,
        Nat.add_one_ne_zero, if_false]
    · obtain rfl : q = 2 ^ 53 := Nat.le_antisymm high full
      have field : (k * 2 ^ 52 + 2 ^ 53) / 2 ^ 52 = k + 2 := by omega
      have fraction : 2 ^ 52 + (k * 2 ^ 52 + 2 ^ 53) % 2 ^ 52 = 2 ^ 52 := by omega
      have exponent : ((max (k + 2) 1 : ℕ) : ℤ) - 1075 = (k - 1074) + 1 := by omega
      have positive : k + 2 ≠ 0 := by omega
      simp only [sizeAt, unitAt, mantissaAt, exponentAt, field, fraction, exponent, positive,
        if_false, zpow_add_one₀ (two_ne_zero (α := ℚ))]
      push_cast
      ring

theorem mantissaAt_lt (b : ℕ) : mantissaAt b < 2 ^ 53 := by
  unfold mantissaAt
  split <;> omega

theorem exists_compose (b : ℕ) : ∃ k q : ℕ, (k = 0 ∨ 2 ^ 52 ≤ q) ∧ q < 2 ^ 53 ∧
    b = k * 2 ^ 52 + q ∧ exponentAt b = (k : ℤ) - 1074 ∧ mantissaAt b = q := by
  rcases Nat.eq_zero_or_pos (b / 2 ^ 52) with small | normal
  · refine ⟨0, b, .inl rfl, by omega, by omega, ?_, by rw [mantissaAt, if_pos small]⟩
    rw [exponentAt, small]
    rfl
  · refine ⟨b / 2 ^ 52 - 1, 2 ^ 52 + b % 2 ^ 52, .inr (Nat.le_add_right _ _), by omega, by omega, ?_,
      by rw [mantissaAt, if_neg (Nat.ne_of_gt normal)]⟩
    rw [exponentAt]
    omega

theorem sizeAt_succ (b : ℕ) : sizeAt (b + 1) = sizeAt b + unitAt b := by
  obtain ⟨k, q, low, high, rfl, exponent, -⟩ := exists_compose b
  have here := sizeAt_compose low high.le
  have next := sizeAt_compose (k := k) (q := q + 1) (low.imp_right Nat.le_succ_of_le) high
  rw [← Nat.add_assoc] at next
  rw [next, here, unitAt, exponent]
  push_cast
  ring

theorem sizeAt_strictMono : StrictMono sizeAt := by
  refine strictMono_nat_of_lt_succ fun b => ?_
  rw [sizeAt_succ]
  exact lt_add_of_pos_right _ (unitAt_pos b)

@[simp] theorem sizeAt_zero : sizeAt 0 = 0 := by
  simp only [sizeAt, mantissaAt, Nat.zero_div, if_true, Nat.cast_zero, zero_mul]

theorem sizeAt_nonneg (b : ℕ) : 0 ≤ sizeAt b := by
  rw [← sizeAt_zero]
  exact sizeAt_strictMono.monotone (Nat.zero_le b)

theorem middle_eq (b : ℕ) : middle b = sizeAt b + unitAt b / 2 := by
  rw [middle, sizeAt_succ]
  ring

theorem middle_eq_sub (b : ℕ) : middle b = sizeAt (b + 1) - unitAt b / 2 := by
  rw [middle, sizeAt_succ]
  ring

theorem middle_strictMono : StrictMono middle := by
  refine strictMono_nat_of_lt_succ fun b => ?_
  have first := sizeAt_strictMono (Nat.lt_add_one b)
  have second := sizeAt_strictMono (Nat.lt_add_one (b + 1))
  unfold middle
  linarith

/-! ## The nearest size -/

/-- No size is nearer to a number, and one with odd bits is the only one so near. -/
structure Nearest (v : ℚ) (b : ℕ) : Prop where
  least : ∀ c, |v - sizeAt b| ≤ |v - sizeAt c|
  even : ∀ c, c ≠ b → |v - sizeAt c| = |v - sizeAt b| → b % 2 = 0

structure Between (v : ℚ) (b : ℕ) : Prop where
  above : ∀ a, a + 1 = b → middle a < v ∨ (middle a = v ∧ b % 2 = 0)
  below : v < middle b ∨ (v = middle b ∧ b % 2 = 0)

variable {v : ℚ} {b c : ℕ}

theorem abs_sub_le_of_le_middle (h : v ≤ middle b) (further : b < c) :
    |v - sizeAt b| ≤ |v - sizeAt c| ∧ (|v - sizeAt c| = |v - sizeAt b| → v = middle b) := by
  have next : sizeAt (b + 1) ≤ sizeAt c := sizeAt_strictMono.monotone further
  have step := sizeAt_strictMono (Nat.lt_add_one b)
  unfold middle at *
  have left : |v - sizeAt c| = sizeAt c - v := by
    rw [abs_sub_comm, abs_of_nonneg]
    linarith
  rw [left]
  rcases abs_cases (v - sizeAt b) with ⟨size, -⟩ | ⟨size, -⟩
  · rw [size]
    exact ⟨by linarith, fun same => by linarith⟩
  · rw [size]
    exact ⟨by linarith, fun same => by linarith⟩

theorem abs_sub_le_of_middle_le {a : ℕ} (h : middle a ≤ v) (further : c ≤ a) :
    |v - sizeAt (a + 1)| ≤ |v - sizeAt c| ∧
      (|v - sizeAt c| = |v - sizeAt (a + 1)| → middle a = v) := by
  have before : sizeAt c ≤ sizeAt a := sizeAt_strictMono.monotone further
  have step := sizeAt_strictMono (Nat.lt_add_one a)
  unfold middle at *
  have right : |v - sizeAt c| = v - sizeAt c := by
    rw [abs_of_nonneg]
    linarith
  rw [right]
  rcases abs_cases (v - sizeAt (a + 1)) with ⟨size, -⟩ | ⟨size, -⟩
  · rw [size]
    exact ⟨by linarith, fun same => by linarith⟩
  · rw [size]
    exact ⟨by linarith, fun same => by linarith⟩

theorem Between.nearest (h : Between v b) : Nearest v b := by
  have below : v ≤ middle b := h.below.elim le_of_lt fun tie => tie.1.le
  have above (a : ℕ) (next : a + 1 = b) : middle a ≤ v :=
    (h.above a next).elim le_of_lt fun tie => tie.1.le
  constructor
  · intro c
    rcases Nat.lt_trichotomy c b with less | rfl | more
    · obtain ⟨a, rfl⟩ : ∃ a, a + 1 = b := ⟨b - 1, by omega⟩
      exact (abs_sub_le_of_middle_le (above a rfl) (Nat.le_of_lt_succ less)).1
    · exact le_refl _
    · exact (abs_sub_le_of_le_middle below more).1
  · intro c other same
    rcases Nat.lt_or_gt_of_ne other with less | more
    · obtain ⟨a, rfl⟩ : ∃ a, a + 1 = b := ⟨b - 1, by omega⟩
      have tie := (abs_sub_le_of_middle_le (above a rfl) (Nat.le_of_lt_succ less)).2 same
      exact ((h.above a rfl).resolve_left (not_lt_of_ge tie.ge)).2
    · have tie := (abs_sub_le_of_le_middle below more).2 same
      exact (h.below.resolve_left (not_lt_of_ge tie.ge)).2

theorem nearest_zero_of_lt (small : v < middle 0) : Nearest v 0 :=
  Between.nearest ⟨fun a next => absurd next (Nat.succ_ne_zero a), .inl small⟩

theorem Nearest.le_middle (h : Nearest v b) : v ≤ middle b := by
  have step := sizeAt_strictMono (Nat.lt_add_one b)
  have least := h.least (b + 1)
  by_contra! far
  unfold middle at far
  have here : |v - sizeAt b| = v - sizeAt b := abs_of_nonneg (by linarith)
  have next : |v - sizeAt (b + 1)| < v - sizeAt b := abs_lt.2 ⟨by linarith, by linarith⟩
  linarith

theorem Nearest.middle_le {a : ℕ} (h : Nearest v (a + 1)) : middle a ≤ v := by
  have step := sizeAt_strictMono (Nat.lt_add_one a)
  have least := h.least a
  by_contra! far
  unfold middle at far
  have here : |v - sizeAt (a + 1)| = sizeAt (a + 1) - v := by
    rw [abs_sub_comm]
    exact abs_of_nonneg (by linarith)
  have next : |v - sizeAt a| < sizeAt (a + 1) - v := abs_lt.2 ⟨by linarith, by linarith⟩
  linarith

theorem abs_sub_of_middle (b : ℕ) : |middle b - sizeAt (b + 1)| = |middle b - sizeAt b| := by
  have step := sizeAt_strictMono (Nat.lt_add_one b)
  unfold middle
  rw [abs_sub_comm, abs_of_nonneg (by linarith), abs_of_nonneg (by linarith)]
  ring

theorem Nearest.lt_iff (h : Nearest v c) (odd : b % 2 = 1) : b < c ↔ middle b ≤ v := by
  constructor
  · intro less
    obtain ⟨a, rfl⟩ : ∃ a, a + 1 = c := ⟨c - 1, by omega⟩
    exact (middle_strictMono.monotone (Nat.le_of_lt_succ less)).trans h.middle_le
  · intro reached
    by_contra! most
    have same : c = b := by
      by_contra other
      have less : c < b := Nat.lt_of_le_of_ne most other
      exact absurd (h.le_middle.trans_lt (middle_strictMono less)) (not_lt_of_ge reached)
    subst same
    have tie := le_antisymm h.le_middle reached
    rw [tie] at h
    have even := h.even (c + 1) (Nat.succ_ne_self c) (abs_sub_of_middle c)
    omega

theorem Nearest.unique (h : Nearest v b) (h' : Nearest v c) : b = c := by
  -- Of two nearest ones the larger lies past a midpoint that is the number itself.
  have not_less {a b : ℕ} (low : Nearest v a) (high : Nearest v b) : ¬a < b := by
    intro less
    obtain ⟨b, rfl⟩ : ∃ p, p + 1 = b := ⟨b - 1, by omega⟩
    have order := middle_strictMono.monotone (Nat.le_of_lt_succ less)
    have first := low.le_middle
    have last := high.middle_le
    have next : a = b := by
      by_contra other
      have strict := middle_strictMono (Nat.lt_of_le_of_ne (Nat.le_of_lt_succ less) other)
      linarith
    subst next
    obtain rfl : v = middle a := le_antisymm first last
    have even := low.even (a + 1) (Nat.succ_ne_self a) (abs_sub_of_middle a)
    have even' := high.even a (Nat.succ_ne_self a).symm (abs_sub_of_middle a).symm
    omega
  exact Nat.le_antisymm (Nat.not_lt.1 (not_less h' h)) (Nat.not_lt.1 (not_less h h'))

end PolicyValues.Double
