import Mathlib.Algebra.Order.Field.Basic
import Curves.Scalar

namespace Curves

universe u

variable (K : Type u) [Field K] [LinearOrder K] [Elementary K]

class LawfulSqrt : Prop where
  sqrt_mul_sqrt : ∀ a : K, 0 ≤ a → Elementary.sqrt a * Elementary.sqrt a = a

class LawfulRoot : Prop extends LawfulSqrt K where
  sqrt_nonneg : ∀ a : K, 0 ≤ a → 0 ≤ Elementary.sqrt a

/-- What is computed without cancellation is the difference it stands for. -/
class LawfulIncrement : Prop extends LawfulSqrt K where
  expSubOne_eq : ∀ t : K, Elementary.expSubOne t = Elementary.exp t - 1
  cos_eq : ∀ t : K, Elementary.cos t = 1 - 2 * Elementary.sin (t / 2) ^ 2

class LawfulStart : Prop extends LawfulIncrement K where
  exp_zero : Elementary.exp (0 : K) = 1
  sin_zero : Elementary.sin (0 : K) = 0

class LawfulAddition : Prop extends LawfulStart K where
  exp_add : ∀ a b : K, Elementary.exp (a + b) = Elementary.exp a * Elementary.exp b
  sin_add : ∀ a b : K, Elementary.sin (a + b) =
    Elementary.sin a * Elementary.cos b + Elementary.cos a * Elementary.sin b
  cos_add : ∀ a b : K, Elementary.cos (a + b) =
    Elementary.cos a * Elementary.cos b - Elementary.sin a * Elementary.sin b

variable {K} in
theorem sqrt_ne_zero [LawfulSqrt K] {a : K} (h : 0 < a) : Elementary.sqrt a ≠ 0 := by
  intro hzero
  have hroot := LawfulSqrt.sqrt_mul_sqrt a h.le
  rw [hzero, zero_mul] at hroot
  exact h.ne hroot

end Curves
