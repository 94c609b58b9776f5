import Mathlib
import Curves.Proofs.Exact
import Curves.Proofs.Exact.Lawful

namespace Curves.Exact

noncomputable instance : Elementary ℝ where
  sqrt := Real.sqrt
  exp := Real.exp
  expSubOne x := Real.exp x - 1
  sin := Real.sin
  cos := Real.cos
  tan := Real.tan
  atan := Real.arctan

instance : LawfulRoot ℝ where
  sqrt_mul_sqrt _ h := Real.mul_self_sqrt h
  sqrt_nonneg a _ := Real.sqrt_nonneg a

instance : LawfulStart ℝ where
  expSubOne_eq _ := rfl
  cos_eq t := by
    have h := Real.cos_two_mul (t / 2)
    rw [mul_div_cancel₀ t two_ne_zero, Real.cos_sq'] at h
    change Real.cos t = 1 - 2 * Real.sin (t / 2) ^ 2
    linear_combination h
  exp_zero := Real.exp_zero
  sin_zero := Real.sin_zero

instance : LawfulAddition ℝ where
  exp_add := Real.exp_add
  sin_add := Real.sin_add
  cos_add := Real.cos_add

end Curves.Exact
