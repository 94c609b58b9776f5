import Mathlib
import Curves.Oscillator
import Curves.Proofs.Exact
import Curves.Proofs.Exact.Lawful

namespace Curves

universe u

namespace Damping

variable {K : Type u} [Field K] [LinearOrder K] [Elementary K]

open Exact (value)

def pair (w : K × K) : Exact K × Exact K :=
  (value w.1, value w.2)

/-- The combination of two functions with the given weights. -/
def dot (w e : K × K) : K :=
  w.1 * e.1 + w.2 * e.2

omit [LinearOrder K] [Elementary K] in
theorem dot_zero (w : K × K) : dot w 0 = 0 := by
  simp only [dot, Prod.fst_zero, Prod.snd_zero, mul_zero, add_zero]

omit [LinearOrder K] [Elementary K] in
theorem dot_add (w e f : K × K) : dot w (e + f) = dot w e + dot w f := by
  simp only [dot, Prod.fst_add, Prod.snd_add]
  ring

/-- A regime as the solutions of `f'' + d * f' + s * f = 0`. Combinations of the basis are given by
their weights; `origin` holds the values of the basis at zero. -/
structure Solutions (R : Damping (Exact K)) (d s : K) where
  derive : K × K → K × K
  fit : K → K → K × K
  origin : K × K
  increment : K → K × K
  differentiate_pair : ∀ w, R.differentiate (pair w) = pair (derive w)
  fit_value : ∀ v c, R.fit (value v) (value c) = pair (fit v c)
  basisIncrement_value : ∀ x, R.basisIncrement (value x) = pair (increment x)
  basis_value : ∀ x, R.basis (value x) = pair (origin + increment x)
  derive_derive : ∀ w, derive (derive w) = -(d • derive w + s • w)
  dot_fit : ∀ v c, dot (fit v c) origin = c
  dot_derive_fit : ∀ v c, dot (derive (fit v c)) origin = v
  fit_dot : ∀ w, fit (dot (derive w) origin) (dot w origin) = w
  increment_zero : Elementary.exp (0 : K) = 1 → Elementary.sin (0 : K) = 0 → increment 0 = 0

theorem Solutions.dot_derive_derive {R : Damping (Exact K)} {d s : K} (S : Solutions R d s)
    (w e : K × K) :
    dot (S.derive (S.derive w)) e = -(d * dot (S.derive w) e + s * dot w e) := by
  rw [S.derive_derive]
  simp only [dot, Prod.fst_neg, Prod.snd_neg, Prod.fst_add, Prod.snd_add, Prod.smul_fst,
    Prod.smul_snd, smul_eq_mul]
  ring

variable [IsStrictOrderedRing K] {d s : K}

/-- Two exponentials, one for each root of `r² + d * r + s`. -/
def Solutions.overdamped [LawfulIncrement K] {r₁ r₂ : K} (hne : r₁ ≠ r₂) (hsum : r₁ + r₂ = -d)
    (hprod : r₁ * r₂ = s) : Solutions (overdamped (value r₁) (value r₂)) d s where
  derive w := (r₁ * w.1, r₂ * w.2)
  fit v c := ((v - r₂ * c) / (r₁ - r₂), c - (v - r₂ * c) / (r₁ - r₂))
  origin := (1, 1)
  increment x := (Elementary.expSubOne (r₁ * x), Elementary.expSubOne (r₂ * x))
  differentiate_pair _ := rfl
  fit_value v c := by
    have h := sub_ne_zero.2 hne
    simp only [Damping.fit, pair, Exact.value_mul, Exact.value_sub, Exact.value_div _ h]
  basisIncrement_value _ := rfl
  basis_value x := by
    simp only [LawfulIncrement.expSubOne_eq, pair, Prod.fst_add, Prod.snd_add, add_sub_cancel]
    rfl
  derive_derive w := by
    apply Prod.ext
    · change r₁ * (r₁ * w.1) = -(d * (r₁ * w.1) + s * w.1)
      linear_combination r₁ * w.1 * hsum - w.1 * hprod
    · change r₂ * (r₂ * w.2) = -(d * (r₂ * w.2) + s * w.2)
      linear_combination r₂ * w.2 * hsum - w.2 * hprod
  dot_fit v c := by
    rw [dot, mul_one, mul_one, add_sub_cancel]
  dot_derive_fit v c := by
    have h := sub_ne_zero.2 hne
    simp only [dot]
    field_simp
    ring
  fit_dot w := by
    have h := sub_ne_zero.2 hne
    simp only [dot]
    apply Prod.ext
    · field_simp
      ring
    · field_simp
      ring
  increment_zero hexp _ := by
    simp only [mul_zero, LawfulIncrement.expSubOne_eq, hexp, sub_self]
    rfl

/-- A growing or decaying oscillation around the roots `alpha ± i * beta`. -/
def Solutions.underdamped [LawfulIncrement K] {alpha beta : K} (hne : beta ≠ 0)
    (hsum : alpha + alpha = -d) (hprod : alpha * alpha + beta * beta = s) :
    Solutions (underdamped (value alpha) (value beta)) d s where
  derive w := (alpha * w.1 + beta * w.2, alpha * w.2 - beta * w.1)
  fit v c := (c, (v - alpha * c) / beta)
  origin := (1, 0)
  increment x :=
    (Elementary.exp (alpha * x) * Elementary.cos (beta * x) - 1,
      Elementary.exp (alpha * x) * Elementary.sin (beta * x))
  differentiate_pair _ := rfl
  fit_value v c := by
    simp only [Damping.fit, pair, Exact.value_mul, Exact.value_sub, Exact.value_div _ hne]
  basisIncrement_value x := by
    have hhalf : (1 / 2 * value beta * value x : Exact K) = value (beta * x / 2) := by
      rw [Exact.one_eq, Exact.ofNat_eq, Exact.value_div 1 two_ne_zero, Exact.value_mul,
        Exact.value_mul, mul_assoc, one_div_mul_eq_div]
    have hcos := LawfulIncrement.cos_eq (beta * x)
    simp only [basisIncrement, hhalf]
    simp only [Exact.ofNat_eq, Exact.value_mul, Exact.value_sub, Exact.expSubOne_value,
      Exact.exp_value, Exact.sin_value, Exact.cos_value, LawfulIncrement.expSubOne_eq, pair]
    congr 2
    linear_combination -hcos
  basis_value x := by
    simp only [pair, Prod.fst_add, Prod.snd_add, add_sub_cancel, zero_add]
    rfl
  derive_derive w := by
    apply Prod.ext
    · change alpha * (alpha * w.1 + beta * w.2) + beta * (alpha * w.2 - beta * w.1) =
        -(d * (alpha * w.1 + beta * w.2) + s * w.1)
      linear_combination (alpha * w.1 + beta * w.2) * hsum - w.1 * hprod
    · change alpha * (alpha * w.2 - beta * w.1) - beta * (alpha * w.1 + beta * w.2) =
        -(d * (alpha * w.2 - beta * w.1) + s * w.2)
      linear_combination (alpha * w.2 - beta * w.1) * hsum - w.2 * hprod
  dot_fit v c := by
    rw [dot, mul_one, mul_zero, add_zero]
  dot_derive_fit v c := by
    simp only [dot]
    field_simp
    ring
  fit_dot w := by
    simp only [dot]
    apply Prod.ext
    · ring
    · field_simp
      ring
  increment_zero hexp hsin := by
    have hcos := LawfulIncrement.cos_eq (0 : K)
    rw [zero_div, hsin, zero_pow two_ne_zero, mul_zero, sub_zero] at hcos
    simp only [mul_zero, hexp, hsin, hcos, mul_one, sub_self]
    rfl

/-- One exponential and its multiple by the variable, for a double root. -/
def Solutions.critical [LawfulIncrement K] {r : K} (hsum : r + r = -d) (hprod : r * r = s) :
    Solutions (critical (value r)) d s where
  derive w := (r * w.1 + w.2, r * w.2)
  fit v c := (c, v - r * c)
  origin := (1, 0)
  increment x := (Elementary.expSubOne (r * x), x * Elementary.exp (r * x))
  differentiate_pair _ := rfl
  fit_value _ _ := rfl
  basisIncrement_value _ := rfl
  basis_value x := by
    simp only [LawfulIncrement.expSubOne_eq, pair, Prod.fst_add, Prod.snd_add, add_sub_cancel,
      zero_add]
    rfl
  derive_derive w := by
    apply Prod.ext
    · change r * (r * w.1 + w.2) + r * w.2 = -(d * (r * w.1 + w.2) + s * w.1)
      linear_combination (r * w.1 + w.2) * hsum - w.1 * hprod
    · change r * (r * w.2) = -(d * (r * w.2) + s * w.2)
      linear_combination r * w.2 * hsum - w.2 * hprod
  dot_fit v c := by
    rw [dot, mul_one, mul_zero, add_zero]
  dot_derive_fit v c := by
    simp only [dot]
    ring
  fit_dot w := by
    simp only [dot]
    apply Prod.ext
    · ring
    · ring
  increment_zero hexp _ := by
    simp only [mul_zero, LawfulIncrement.expSubOne_eq, hexp, sub_self, zero_mul]
    rfl

/-- The numbers of a regime are the roots of `r² + d * r + s`: two of them, a conjugate pair, or a
double one. -/
inductive IsCharacteristic (d s : K) : Damping (Exact K) → Prop
  | overdamped {r₁ r₂ : K} (hne : r₁ ≠ r₂) (hsum : r₁ + r₂ = -d) (hprod : r₁ * r₂ = s) :
      IsCharacteristic d s (.overdamped (value r₁) (value r₂))
  | underdamped {alpha beta : K} (hne : beta ≠ 0) (hsum : alpha + alpha = -d)
      (hprod : alpha * alpha + beta * beta = s) :
      IsCharacteristic d s (.underdamped (value alpha) (value beta))
  | critical {r : K} (hsum : r + r = -d) (hprod : r * r = s) :
      IsCharacteristic d s (.critical (value r))

/-- The discriminant selects the regime by the kind of the roots. -/
theorem isCharacteristic_ofDiscriminant [LawfulSqrt K] (d s : K) :
    IsCharacteristic d s (ofDiscriminant (value d) (value (d * d - 4 * s))) := by
  have half_value (a : K) : (value a / 2 : Exact K) = value (a / 2) :=
    Exact.value_div a two_ne_zero
  rw [ofDiscriminant, Exact.zero_eq, Exact.value_neg]
  rcases lt_trichotomy 0 (d * d - 4 * s) with hpos | hzero | hneg
  · have hroot := LawfulSqrt.sqrt_mul_sqrt _ hpos.le
    rw [if_pos ((Exact.value_lt _ _).2 hpos), Exact.sqrt_value hpos.le, Exact.value_sub,
      Exact.value_add, half_value, half_value]
    apply IsCharacteristic.overdamped
    · intro h
      apply sqrt_ne_zero hpos
      linear_combination -h
    · ring
    · linear_combination (-1 / 4 : K) * hroot
  · rw [if_neg fun h => hzero.not_lt ((Exact.value_lt _ _).1 h),
      if_neg fun h => hzero.not_gt ((Exact.value_lt _ _).1 h), half_value]
    apply IsCharacteristic.critical
    · ring
    · linear_combination (-1 / 4 : K) * hzero
  · have hpos := neg_pos.2 hneg
    have hroot := LawfulSqrt.sqrt_mul_sqrt _ hpos.le
    rw [if_neg fun h => hneg.not_gt ((Exact.value_lt _ _).1 h),
      if_pos ((Exact.value_lt _ _).2 hneg), Exact.value_neg, Exact.sqrt_value hpos.le,
      half_value, half_value]
    apply IsCharacteristic.underdamped
    · exact div_ne_zero (sqrt_ne_zero hpos) two_ne_zero
    · ring
    · linear_combination (1 / 4 : K) * hroot

theorem IsCharacteristic.nonempty_solutions [LawfulIncrement K] {R : Damping (Exact K)}
    (h : IsCharacteristic d s R) : Nonempty (Solutions R d s) := by
  cases h with
  | overdamped hne hsum hprod => exact ⟨.overdamped hne hsum hprod⟩
  | underdamped hne hsum hprod => exact ⟨.underdamped hne hsum hprod⟩
  | critical hsum hprod => exact ⟨.critical hsum hprod⟩

end Damping
end Curves
