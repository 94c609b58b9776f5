import Curves.Proofs.Curve.Integral
import Curves.Proofs.Curve.Shape
import Curves.Proofs.Exact.Real
import Curves.Proofs.Polynomial.Calculus

namespace Curves.Curve

universe u

section Scalars

variable {α : Type u} [Scalar α] {f : Curve α}

theorem Everywhere.raise (h : PolynomialTree f) (v : α) : PolynomialTree (f.raise v) := by
  apply h.raise_of
  intro f hf
  cases f with
  | polynomial => trivial
  | piecewise => trivial
  | affine => exact hf.elim
  | oscillator => exact hf.elim

theorem Everywhere.derivative_raise (h : PolynomialTree f) (v : α) :
    (f.raise v).derivative = f.derivative := by
  induction h with
  | polynomial _ => rw [Curve.raise, derivative, Polynomial.derivative_raise, derivative]
  | piecewise _ _ ih =>
    rw [Curve.raise, derivative, derivative, raiseBands_eq_map, derivativeBands_eq_map,
      derivativeBands_eq_map, List.map_map]
    apply congrArg
    apply List.map_congr_left
    intro b hb
    exact congrArg (Band.mk b.min b.max) (ih b hb)
  | affine h => exact h.elim
  | oscillator h => exact h.elim

end Scalars

variable {K : Type u} [Field K] [LinearOrder K] [Elementary K] {f g : Curve (Exact K)}

open Exact (value)

/-- The derivative of `g` is `f`, point by point, and undefined where `f` is. -/
def IsPrimitive (g f : Curve (Exact K)) : Prop :=
  ∀ x, g.derivative.eval x = f.eval x

theorem IsPrimitive.cons (h : g.IsPrimitive f) {bands gs : List (Band (Exact K) (Curve (Exact K)))}
    (hs : (piecewise gs).IsPrimitive (piecewise bands)) (lo hi : Exact K) :
    (piecewise (⟨lo, hi, g⟩ :: gs)).IsPrimitive (piecewise (⟨lo, hi, f⟩ :: bands)) := by
  intro x
  have hx := hs x
  rw [derivative] at hx
  rw [derivative, derivativeBands, eval_cons, eval_cons, hx, h x]
  rfl

theorem IsPrimitive.affine (h : g.IsPrimitive f) {t : Affine (Exact K)} (ht : t.Regular) :
    (affine t.antiderivative g).IsPrimitive (affine t f) := by
  intro x
  rw [derivative, ht.derivative_antiderivative, eval, eval, h]

/-- Whatever its constant, the antiderivative exists, is made of polynomials and bands, and has
the curve for its derivative. -/
def IsIntegrable (f : Curve (Exact K)) : Prop :=
  ∀ k, ∃ g, f.antiderivative k = .ok g ∧ PolynomialTree g ∧ g.IsPrimitive f

theorem antiderivativeAfter_primitive {bands : List (Band (Exact K) (Curve (Exact K)))}
    (h : ∀ b ∈ bands, b.body.IsIntegrable) (reached : Exact K) :
    ∃ gs, antiderivativeAfter bands reached = .ok gs ∧ (∀ c ∈ gs, PolynomialTree c.body) ∧
      (piecewise gs).IsPrimitive (piecewise bands) := by
  induction bands generalizing reached with
  | nil => exact ⟨[], rfl, nofun, fun _ => rfl⟩
  | cons b bands ih =>
    obtain ⟨lo, hi, f⟩ := b
    obtain ⟨hf, hbands⟩ := List.forall_mem_cons.1 h
    obtain ⟨g, hg, ht, hp⟩ := hf 0
    let shift := reached - g.eval lo
    obtain ⟨gs, hgs, hts, hps⟩ := ih hbands ((g.raise shift).eval hi)
    have hp' : (g.raise shift).IsPrimitive f := by
      intro x
      rw [ht.derivative_raise, hp]
    refine ⟨⟨lo, hi, g.raise shift⟩ :: gs, ?_, ?_, hp'.cons hps lo hi⟩
    · exact antiderivativeAfter_cons_ok_iff.2 ⟨g, gs, hg, hgs, rfl⟩
    · exact List.forall_mem_cons.2 ⟨ht.raise shift, hts⟩

theorem antiderivative_primitive {bands : List (Band (Exact K) (Curve (Exact K)))}
    (h : ∀ b ∈ bands, b.body.IsIntegrable) : (piecewise bands).IsIntegrable := by
  intro k
  cases bands with
  | nil => exact ⟨.piecewise [], rfl, .piecewise trivial nofun, fun _ => rfl⟩
  | cons b bands =>
    obtain ⟨lo, hi, f⟩ := b
    obtain ⟨hf, hbands⟩ := List.forall_mem_cons.1 h
    obtain ⟨g, hg, ht, hp⟩ := hf k
    obtain ⟨gs, hgs, hts, hps⟩ := antiderivativeAfter_primitive hbands (g.eval hi)
    have htree : PolynomialTree (piecewise (⟨lo, hi, g⟩ :: gs)) :=
      .piecewise trivial (List.forall_mem_cons.2 ⟨ht, hts⟩)
    exact ⟨_, antiderivative_cons_ok hg hgs, htree, hp.cons hps lo hi⟩

variable [IsStrictOrderedRing K]

theorem Everywhere.isIntegrable (h : PolynomialTree f) : f.IsIntegrable := by
  induction h with
  | @polynomial p _ =>
    intro k
    exact ⟨.polynomial (p.antiderivative k), rfl, .polynomial trivial,
      p.eval_derivative_antiderivative k⟩
  | piecewise _ _ ih => exact antiderivative_primitive ih
  | affine h => exact h.elim
  | oscillator h => exact h.elim

/-- Differentiating an antiderivative gives back a tree of bands and polynomials, also inside any
number of regular changes of axes. -/
theorem antiderivative_derivative (h : Wrapped Affine.Regular PolynomialTree f) (k : Exact K) :
    ∃ g, f.antiderivative k = .ok g ∧ ∀ x, g.derivative.eval x = f.eval x := by
  induction h with
  | core h =>
    obtain ⟨g, hg, -, hp⟩ := h.isIntegrable k
    exact ⟨g, hg, hp⟩
  | @affine t f ht _ ih =>
    obtain ⟨g, hg, hp⟩ := ih
    exact ⟨_, antiderivative_affine_ok hg, IsPrimitive.affine hp ht⟩

def nestedBands : Curve (Exact ℝ) :=
  .affine ⟨value 1, value (-1), value 1, value (1 + 1)⟩ <| .piecewise
    [⟨value (-1), value 1, .piecewise
        [⟨value (-1), value 0, .polynomial ⟨[value 1, value (-1)], value 0⟩⟩,
          ⟨value 0, value 1, .polynomial ⟨[value 0], value 1⟩⟩]⟩,
      ⟨value (1 + 1), value (1 + 1 + 1), .polynomial ⟨[], value 0⟩⟩]

theorem antiderivative_derivative_nestedBands :
    Wrapped Affine.Regular PolynomialTree nestedBands ∧
      ∃ g, nestedBands.antiderivative (value 7) = .ok g ∧
        ∀ x, g.derivative.eval x = nestedBands.eval x := by
  have h : Wrapped Affine.Regular PolynomialTree nestedBands := by
    apply Wrapped.affine ⟨⟨-1, rfl, by norm_num⟩, ⟨1 + 1, rfl, by norm_num⟩⟩
    apply Wrapped.core
    have hp (p : Polynomial (Exact ℝ)) : PolynomialTree (.polynomial p) := .polynomial trivial
    have hb : PolynomialTree (.piecewise
        [⟨value (-1), value 0, .polynomial ⟨[value 1, value (-1)], value (0 : ℝ)⟩⟩,
          ⟨value 0, value 1, .polynomial ⟨[value 0], value 1⟩⟩]) := by
      apply Everywhere.piecewise trivial
      simp only [List.forall_mem_cons]
      exact ⟨hp _, hp _, nofun⟩
    apply Everywhere.piecewise trivial
    simp only [List.forall_mem_cons]
    exact ⟨hb, hp _, nofun⟩
  exact ⟨h, antiderivative_derivative h (value 7)⟩

end Curves.Curve
