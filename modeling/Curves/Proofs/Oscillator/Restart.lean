import Curves.Proofs.Oscillator.Motion

namespace Curves

universe u

namespace Damping

variable {K : Type u} [Field K] [LinearOrder K] [Elementary K]

open Exact (value)

namespace Solutions

variable {R : Damping (Exact K)} {d s : K} (S : Solutions R d s)

def basisAt (x : K) : K × K :=
  S.origin + S.increment x

/-- The weights with the value and the slope at zero that the weights `w` have at `a`. -/
def moved (a : K) (w : K × K) : K × K :=
  S.fit (dot (S.derive w) (S.basisAt a)) (dot w (S.basisAt a))

theorem dot_moved (a : K) (w : K × K) : dot (S.moved a w) S.origin = dot w (S.basisAt a) :=
  S.dot_fit _ _

/-- Differentiating and moving commute, since both sides obey the same equation. -/
theorem derive_moved (a : K) (w : K × K) : S.derive (S.moved a w) = S.moved a (S.derive w) := by
  have hslope : dot (S.derive (S.moved a w)) S.origin = dot (S.derive w) (S.basisAt a) :=
    S.dot_derive_fit _ _
  have hcurvature : dot (S.derive (S.derive (S.moved a w))) S.origin =
      dot (S.derive (S.derive w)) (S.basisAt a) := by
    rw [S.dot_derive_derive, S.dot_derive_derive, hslope, S.dot_moved]
  rw [← S.fit_dot (S.derive (S.moved a w)), hslope, hcurvature]
  rfl

/-- A combination of the basis functions, read from `a` on, is the combination moved there. -/
def IsTranslatable : Prop :=
  ∀ a w x, dot (S.moved a w) (S.basisAt x) = dot w (S.basisAt (a + x))

end Solutions

variable [IsStrictOrderedRing K] [LawfulAddition K] {d s : K}

theorem isTranslatable_overdamped {r₁ r₂ : K} (hne : r₁ ≠ r₂) (hsum : r₁ + r₂ = -d)
    (hprod : r₁ * r₂ = s) : (Solutions.overdamped hne hsum hprod).IsTranslatable := by
  intro a w x
  have h := sub_ne_zero.2 hne
  simp only [Solutions.moved, Solutions.basisAt, Solutions.overdamped, dot, Prod.fst_add,
    Prod.snd_add, LawfulIncrement.expSubOne_eq, add_sub_cancel, mul_add,
    LawfulAddition.exp_add]
  field_simp
  ring

theorem isTranslatable_underdamped {alpha beta : K} (hne : beta ≠ 0)
    (hsum : alpha + alpha = -d) (hprod : alpha * alpha + beta * beta = s) :
    (Solutions.underdamped hne hsum hprod).IsTranslatable := by
  intro a w x
  simp only [Solutions.moved, Solutions.basisAt, Solutions.underdamped, dot, Prod.fst_add,
    Prod.snd_add, add_sub_cancel, zero_add, mul_add, LawfulAddition.exp_add,
    LawfulAddition.sin_add, LawfulAddition.cos_add]
  field_simp
  ring

theorem isTranslatable_critical {r : K} (hsum : r + r = -d) (hprod : r * r = s) :
    (Solutions.critical hsum hprod).IsTranslatable := by
  intro a w x
  simp only [Solutions.moved, Solutions.basisAt, Solutions.critical, dot, Prod.fst_add,
    Prod.snd_add, LawfulIncrement.expSubOne_eq, add_sub_cancel, zero_add, mul_add,
    LawfulAddition.exp_add]
  ring

theorem IsCharacteristic.exists_isTranslatable {R : Damping (Exact K)}
    (h : IsCharacteristic d s R) : ∃ S : Solutions R d s, S.IsTranslatable := by
  cases h with
  | overdamped hne hsum hprod => exact ⟨_, isTranslatable_overdamped hne hsum hprod⟩
  | underdamped hne hsum hprod => exact ⟨_, isTranslatable_underdamped hne hsum hprod⟩
  | critical hsum hprod => exact ⟨_, isTranslatable_critical hsum hprod⟩

end Damping

namespace Oscillator

open Exact (value)
open Damping (dot)

/-- The oscillator with the same equation that starts in the state reached at `a`. -/
def restart {α : Type u} [Scalar α] (o : Oscillator α) (a : α) : Oscillator α :=
  ofParameters { o.toParameters with velocity := o.slope a, position := o.eval a }

variable {K : Type u} [Field K] [LinearOrder K] [Elementary K] {p : Parameters K}

namespace Motion

variable (M : Motion p) (a x : K)

def restartParameters : Parameters K :=
  { p with
    velocity := p.velocity + dot (M.solutions.derive M.weights) (M.solutions.increment a)
    position := p.position + dot M.weights (M.solutions.increment a) }

theorem restart_ofValues : (ofValues p).restart (value a) = ofValues (M.restartParameters a) := by
  rw [restart, M.eval_ofValues, M.slope_ofValues]
  rfl

/-- The restarted motion has the regime and the point of rest of the motion itself. -/
def restart : Motion (M.restartParameters a) where
  solutions := M.solutions
  rest := M.rest
  rest_value := M.rest_value
  stiffness_mul_rest := M.stiffness_mul_rest

theorem dot_weights_basisAt :
    dot M.weights (M.solutions.basisAt x) =
      p.position + dot M.weights (M.solutions.increment x) - M.rest := by
  rw [Damping.Solutions.basisAt, Damping.dot_add, M.dot_weights]
  ring

theorem dot_derive_weights_basisAt :
    dot (M.solutions.derive M.weights) (M.solutions.basisAt x) =
      p.velocity + dot (M.solutions.derive M.weights) (M.solutions.increment x) := by
  rw [Damping.Solutions.basisAt, Damping.dot_add, M.dot_derive_weights]

theorem weights_restart : (M.restart a).weights = M.solutions.moved a M.weights := by
  rw [Damping.Solutions.moved, M.dot_weights_basisAt, M.dot_derive_weights_basisAt]
  rfl

section Translatable

variable {M} (hM : M.solutions.IsTranslatable)

include hM

theorem eval_restart :
    ((ofValues p).restart (value a)).eval (value x) = (ofValues p).eval (value (a + x)) := by
  have hmoved := hM a M.weights x
  rw [← M.weights_restart] at hmoved
  have hrest := (M.restart a).dot_weights_basisAt x
  have hvalue := hrest.symm.trans (hmoved.trans (M.dot_weights_basisAt (a + x)))
  rw [M.restart_ofValues, (M.restart a).eval_ofValues, M.eval_ofValues]
  exact congrArg value (sub_left_inj.1 hvalue)

theorem slope_restart :
    ((ofValues p).restart (value a)).slope (value x) = (ofValues p).slope (value (a + x)) := by
  have hmoved := hM a (M.solutions.derive M.weights) x
  rw [← M.solutions.derive_moved, ← M.weights_restart] at hmoved
  have hslope := (M.restart a).dot_derive_weights_basisAt x
  rw [M.restart_ofValues, (M.restart a).slope_ofValues, M.slope_ofValues]
  exact congrArg value
    (hslope.symm.trans (hmoved.trans (M.dot_derive_weights_basisAt (a + x))))

theorem curvature_restart : ((ofValues p).restart (value a)).curvature (value x) =
    (ofValues p).curvature (value (a + x)) := by
  have hmoved := hM a (M.solutions.derive (M.solutions.derive M.weights)) x
  rw [← M.solutions.derive_moved, ← M.solutions.derive_moved, ← M.weights_restart] at hmoved
  rw [M.restart_ofValues, (M.restart a).curvature_ofValues, M.curvature_ofValues]
  exact congrArg value hmoved

end Translatable

end Motion

variable [IsStrictOrderedRing K] [LawfulAddition K]

theorem exists_isTranslatable (h : p.HasRest) :
    ∃ M : Motion p, M.solutions.IsTranslatable := by
  obtain ⟨S, hS⟩ :=
    (Damping.isCharacteristic_ofDiscriminant p.damping p.stiffness).exists_isTranslatable
  exact ⟨.ofSolutions S h, hS⟩

/-- An oscillator that is restarted from the state it has reached at `a` moves on as before. -/
theorem restart_continues (h : p.HasRest) (a x : K) :
    ((ofValues p).restart (value a)).eval (value x) = (ofValues p).eval (value (a + x)) ∧
      ((ofValues p).restart (value a)).slope (value x) = (ofValues p).slope (value (a + x)) ∧
      ((ofValues p).restart (value a)).curvature (value x) =
        (ofValues p).curvature (value (a + x)) := by
  obtain ⟨M, hM⟩ := exists_isTranslatable h
  exact ⟨Motion.eval_restart a x hM, Motion.slope_restart a x hM, Motion.curvature_restart a x hM⟩

def dampedSwing : Parameters ℝ :=
  ⟨1, 1, 1, -1, 0⟩

theorem restart_continues_dampedSwing :
    dampedSwing.HasRest ∧
      ((ofValues dampedSwing).restart (value 2)).eval (value 3) =
        (ofValues dampedSwing).eval (value (2 + 3)) ∧
      ((ofValues dampedSwing).restart (value 2)).slope (value 3) =
        (ofValues dampedSwing).slope (value (2 + 3)) ∧
      ((ofValues dampedSwing).restart (value 2)).curvature (value 3) =
        (ofValues dampedSwing).curvature (value (2 + 3)) := by
  have h : dampedSwing.HasRest := .inl one_ne_zero
  exact ⟨h, restart_continues h 2 3⟩

end Oscillator
end Curves
