import Curves.Curve
import Curves.Proofs.Exact

namespace Curves

universe u

namespace Affine

variable {K : Type u} [Field K] [LinearOrder K] [Elementary K]

open Exact (value)

structure Regular (t : Affine (Exact K)) : Prop where
  xMul : ∃ m, t.xMul = value m ∧ m ≠ 0
  yMul : ∃ n, t.yMul = value n ∧ n ≠ 0

theorem Regular.derivative_antiderivative {t : Affine (Exact K)} (h : t.Regular) :
    t.antiderivative.derivative = t := by
  obtain ⟨m, hm, hm0⟩ := h.xMul
  obtain ⟨n, hn, -⟩ := h.yMul
  obtain ⟨xAdd, xMul, yAdd, yMul⟩ := t
  subst hm hn
  rw [antiderivative, derivative, Exact.value_div n hm0, Exact.value_mul, div_mul_cancel₀ n hm0]

theorem regular_antiderivative {t : Affine (Exact K)} (h : t.Regular) :
    t.antiderivative.Regular := by
  obtain ⟨m, hm, hm0⟩ := h.xMul
  obtain ⟨n, hn, hn0⟩ := h.yMul
  refine ⟨⟨m, hm, hm0⟩, n / m, ?_, div_ne_zero hn0 hm0⟩
  rw [Affine.antiderivative, hm, hn, Exact.value_div n hm0]

end Affine

namespace Curve

variable {α : Type u}

/-- Every part of a curve, at every depth, satisfies `P`. -/
inductive Everywhere (P : Curve α → Prop) : Curve α → Prop
  | polynomial {p} (h : P (.polynomial p)) : Everywhere P (.polynomial p)
  | piecewise {bands} (h : P (.piecewise bands)) (hb : ∀ b ∈ bands, Everywhere P b.body) :
      Everywhere P (.piecewise bands)
  | affine {t f} (h : P (.affine t f)) (hf : Everywhere P f) : Everywhere P (.affine t f)
  | oscillator {o} (h : P (.oscillator o)) : Everywhere P (.oscillator o)

/-- A curve that satisfies `Q` inside any number of changes of axes that satisfy `T`. -/
inductive Wrapped (T : Affine α → Prop) (Q : Curve α → Prop) : Curve α → Prop
  | core {f} (h : Q f) : Wrapped T Q f
  | affine {t f} (ht : T t) (hf : Wrapped T Q f) : Wrapped T Q (.affine t f)

theorem Everywhere.mono {P Q : Curve α → Prop} {f : Curve α} (hPQ : ∀ f, P f → Q f)
    (h : Everywhere P f) : Everywhere Q f := by
  induction h with
  | polynomial h => exact .polynomial (hPQ _ h)
  | piecewise h _ ih => exact .piecewise (hPQ _ h) ih
  | affine h _ ih => exact .affine (hPQ _ h) ih
  | oscillator h => exact .oscillator (hPQ _ h)

theorem Everywhere.raise_of [Scalar α] {P : Curve α → Prop} {f : Curve α} {v : α}
    (hP : ∀ f, P f → P (f.raise v)) (h : Everywhere P f) : Everywhere P (f.raise v) := by
  induction h with
  | polynomial h => exact .polynomial (hP _ h)
  | piecewise h _ ih =>
    apply Everywhere.piecewise (hP _ h)
    rw [raiseBands_eq_map]
    intro c hc
    obtain ⟨b, hb, rfl⟩ := List.mem_map.1 hc
    exact ih b hb
  | affine h hf => exact .affine (hP _ h) hf
  | oscillator h => exact .oscillator (hP _ h)

def IsBanded : Curve α → Prop
  | .polynomial _ | .piecewise _ => True
  | .affine _ _ | .oscillator _ => False

/-- Bands nested to any depth with polynomials on them. -/
abbrev PolynomialTree : Curve α → Prop :=
  Everywhere IsBanded

variable {K : Type u} [Field K] [LinearOrder K] [Elementary K]

def IsRegular : Curve (Exact K) → Prop
  | .polynomial _ | .piecewise _ => True
  | .affine t _ => t.Regular
  | .oscillator _ => False

/-- Polynomials, bands and regular changes of axes nested to any depth. -/
abbrev RegularTree : Curve (Exact K) → Prop :=
  Everywhere IsRegular

/-- What places a kind of curve on the axis is given by numbers. -/
def IsPlaced : Curve (Exact K) → Prop
  | .polynomial p => p.origin.IsValue
  | .piecewise bands => ∀ b ∈ bands, b.min.IsValue ∧ b.max.IsValue
  | .affine t _ => t.xAdd.IsValue ∧ t.xMul.IsValue
  | .oscillator _ => True

end Curve
end Curves
