import Curves.Proofs.Curve.Domain
import Curves.Proofs.Curve.Shape
import Curves.Proofs.Oscillator.Motion
import Curves.Proofs.Polynomial.Calculus

namespace Curves.Curve

universe u

theorem slopeBands_eq_evalBands {α : Type u} [Scalar α] {x : α} {bands : List (Band α (Curve α))}
    (h : ∀ b ∈ bands, b.body.slope x = b.body.derivative.eval x) :
    slopeBands bands x = evalBands (derivativeBands bands) x := by
  induction bands with
  | nil => rfl
  | cons b bands ih =>
    obtain ⟨hb, hbs⟩ := List.forall_mem_cons.1 h
    rw [slopeBands, derivativeBands, evalBands, hb, ih hbs]
    rfl

variable {K : Type u} [Field K] [LinearOrder K] [Elementary K] {f : Curve (Exact K)}

open Exact (value)

/-- Oscillators are given by numbers and have a point of rest; all other kinds of curves are placed
by numbers. -/
def IsSmooth : Curve (Exact K) → Prop
  | .oscillator o => ∃ p : Oscillator.Parameters K, p.HasRest ∧ o = .ofValues p
  | f => f.IsPlaced

variable [IsStrictOrderedRing K] [LawfulIncrement K]

theorem Everywhere.slope_eq_eval (h : Everywhere IsSmooth f) (x : K) :
    f.slope (value x) = f.derivative.eval (value x) := by
  induction h generalizing x with
  | polynomial h => exact Polynomial.slope_eq_eval_derivative ((Exact.isValue_value x).sub h)
  | piecewise _ _ ih => exact slopeBands_eq_evalBands fun b hb => ih b hb x
  | @affine t f h _ ih =>
    obtain ⟨u, hu⟩ := h.2.mul (h.1.add (Exact.isValue_value x))
    have hinner : t.inner (value x) = value u := hu
    rw [slope, derivative, eval, hinner, ih u]
    exact congrArg (fun y => t.derivative.apply (f.derivative.eval y)) hinner.symm
  | oscillator h =>
    obtain ⟨p, hp, rfl⟩ := h
    exact Oscillator.slope_eq_eval_derivative hp x

/-- Differentiating at a point is evaluating the derivative, and differentiating the derivative of
an oscillator gives its curvature. -/
theorem slope_and_curvature_eq_derivative (h : Everywhere IsSmooth f) (x : K) :
    f.slope (value x) = f.derivative.eval (value x) ∧
      ∀ o, f = .oscillator o → f.derivative.slope (value x) = o.curvature (value x) := by
  refine ⟨h.slope_eq_eval x, ?_⟩
  rintro o rfl
  cases h with
  | oscillator h =>
    obtain ⟨p, hp, rfl⟩ := h
    exact Oscillator.slope_derivative_eq_curvature hp x

def pendulum : Oscillator.Parameters ℝ :=
  ⟨0, 1, 0, 1, 0⟩

/-- The swing on one band, and a parabola with both axes mirrored on the next. -/
noncomputable def swing : Curve (Exact ℝ) := .piecewise
  [⟨value (-1), value 0, .oscillator (.ofValues pendulum)⟩,
    ⟨value 0, value 1,
      .affine ⟨value 0, value (-1), value 1, value (-1)⟩
        (.polynomial ⟨[value 1, value 1, value 1], value 1⟩)⟩]

theorem slope_and_curvature_eq_derivative_swing :
    Everywhere IsSmooth swing ∧
      swing.slope (value (-1 / 2)) = swing.derivative.eval (value (-1 / 2)) ∧
      swing.slope (value 2) = swing.derivative.eval (value 2) ∧
      (oscillator (.ofValues pendulum)).derivative.slope (value 2) =
        (Oscillator.ofValues pendulum).curvature (value 2) := by
  have hp : Everywhere IsSmooth (oscillator (.ofValues pendulum)) :=
    .oscillator ⟨pendulum, .inl one_ne_zero, rfl⟩
  have h : Everywhere IsSmooth swing := by
    have hv (a : ℝ) : (value a).IsValue := Exact.isValue_value a
    apply Everywhere.piecewise
    · simp only [IsSmooth, IsPlaced, List.forall_mem_cons]
      exact ⟨⟨hv _, hv _⟩, ⟨hv _, hv _⟩, nofun⟩
    · simp only [List.forall_mem_cons]
      exact ⟨hp, .affine ⟨hv _, hv _⟩ (.polynomial (hv _)), nofun⟩
  exact ⟨h, (slope_and_curvature_eq_derivative h (-1 / 2)).1,
    (slope_and_curvature_eq_derivative h 2).1,
    (slope_and_curvature_eq_derivative hp 2).2 _ rfl⟩

end Curves.Curve
