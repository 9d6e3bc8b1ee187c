/-! Powers of numbers, and rounding of quotients to the nearest natural number. -/
namespace PolicyValues

-- Powers are the plain ones, also where more general instances are in scope.
attribute [instance (2000), default_instance 20000] instPowNat

/-- `n / d` to the nearest natural number, a tie to the even one. -/
def divHalfEven (n d : Nat) : Nat :=
  let q := n / d
  let r := n % d
  if 2 * r < d ∨ (2 * r = d ∧ q % 2 = 0) then q else q + 1

theorem divHalfEven_le (n d : Nat) : divHalfEven n d ≤ n / d + 1 := by
  unfold divHalfEven; simp only; split <;> omega

theorem le_divHalfEven (n d : Nat) : n / d ≤ divHalfEven n d := by
  unfold divHalfEven; simp only; split <;> omega

theorem divHalfEven_mul {d : Nat} (h : 0 < d) (q : Nat) : divHalfEven (q * d) d = q := by
  unfold divHalfEven
  simp only [Nat.mul_mod_left, Nat.mul_zero, h, true_or, if_true, Nat.mul_div_cancel _ h]

end PolicyValues
