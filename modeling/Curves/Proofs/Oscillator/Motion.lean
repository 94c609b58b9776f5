import Curves.Proofs.Exact.Real
import Curves.Proofs.Oscillator.Solutions

namespace Curves.Oscillator

universe u v

open Exact (value)
open Damping (dot pair)

section Scalars

variable {α : Type u} {β : Type v}

namespace Parameters

def map (g : α → β) (p : Parameters α) : Parameters β :=
  ⟨g p.damping, g p.stiffness, g p.force, g p.velocity, g p.position⟩

/-- A spring can balance the force, or there is none to balance. -/
def HasRest [OfNat α 0] (p : Parameters α) : Prop :=
  p.stiffness ≠ 0 ∨ p.force = 0

end Parameters

inductive Change (α : Type u) where
  | set (damping stiffness force velocity position : α)
  | raise (v : α)

namespace Change

def map (g : α → β) : Change α → Change β
  | set damping stiffness force velocity position =>
    set (g damping) (g stiffness) (g force) (g velocity) (g position)
  | raise v => raise (g v)

/-- What the change makes of the parameters. -/
def parameters [Add α] [Mul α] (p : Parameters α) : Change α → Parameters α
  | set damping stiffness force velocity position =>
    ⟨damping, stiffness, force, velocity, position⟩
  | raise v => { p with force := p.force + p.stiffness * v, position := p.position + v }

variable [Scalar α]

def apply (o : Oscillator α) : Change α → Oscillator α
  | set damping stiffness force velocity position =>
    o.set damping stiffness force velocity position
  | raise v => o.raise v

theorem apply_eq (o : Oscillator α) (c : Change α) :
    c.apply o = ofParameters (c.parameters o.toParameters) := by
  cases c with
  | set => rfl
  | raise => rfl

end Change

def Parameters.after [Add α] [Mul α] (p : Parameters α) (cs : List (Change α)) : Parameters α :=
  cs.foldl Change.parameters p

variable [Scalar α]

def run (o : Oscillator α) (cs : List (Change α)) : Oscillator α :=
  cs.foldl Change.apply o

/-- Changing an oscillator comes to the same as making one of the changed parameters. -/
theorem run_ofParameters (p : Parameters α) (cs : List (Change α)) :
    (ofParameters p).run cs = ofParameters (p.after cs) := by
  induction cs generalizing p with
  | nil => rfl
  | cons c cs ih =>
    rw [run, List.foldl_cons, Change.apply_eq]
    exact ih (c.parameters p)

section Kept

variable (p : Parameters α)

theorem rest_ofParameters :
    (ofParameters p).rest = if p.force == 0 then 0 else p.force / p.stiffness :=
  rfl

theorem weights_ofParameters : (ofParameters p).weights =
    (ofParameters p).regime.fit p.velocity (p.position - (ofParameters p).rest) :=
  rfl

theorem slopeWeights_ofParameters : (ofParameters p).slopeWeights =
    (ofParameters p).regime.differentiate (ofParameters p).weights :=
  rfl

theorem curvatureWeights_ofParameters : (ofParameters p).curvatureWeights =
    (ofParameters p).regime.differentiate (ofParameters p).slopeWeights :=
  rfl

end Kept

end Scalars

variable {K : Type u} [Field K] [LinearOrder K] [Elementary K] {p : Parameters K}

noncomputable def ofValues (p : Parameters K) : Oscillator (Exact K) :=
  ofParameters (p.map value)

/-- The motion in terms of the solutions of the homogeneous equation about the point of rest. -/
structure Motion (p : Parameters K) where
  solutions : Damping.Solutions (ofValues p).regime p.damping p.stiffness
  rest : K
  rest_value : (ofValues p).rest = value rest
  stiffness_mul_rest : p.stiffness * rest = p.force

theorem rest_ofValues (h : p.HasRest) :
    (ofValues p).rest = value (p.force / p.stiffness) := by
  rw [ofValues, rest_ofParameters, Parameters.map, Exact.zero_eq, Exact.value_beq]
  by_cases hf : p.force = 0
  · rw [if_pos (decide_eq_true hf), hf, zero_div]
  · rw [if_neg (by simpa using hf), Exact.value_div _ (h.resolve_right hf)]

/-- Any solutions of the homogeneous equation give the motion. -/
def Motion.ofSolutions (S : Damping.Solutions (ofValues p).regime p.damping p.stiffness)
    (h : p.HasRest) : Motion p where
  solutions := S
  rest := p.force / p.stiffness
  rest_value := rest_ofValues h
  stiffness_mul_rest := by
    rcases h with hs | hf
    · exact mul_div_cancel₀ _ hs
    · rw [hf, zero_div, mul_zero]

theorem nonempty_motion [IsStrictOrderedRing K] [LawfulIncrement K] (h : p.HasRest) :
    Nonempty (Motion p) := by
  obtain ⟨S⟩ :=
    (Damping.isCharacteristic_ofDiscriminant p.damping p.stiffness).nonempty_solutions
  exact ⟨.ofSolutions S h⟩

theorem combine_pair (w e : K × K) : combine (pair w) (pair e) = value (dot w e) :=
  rfl

namespace Motion

variable (M : Motion p) (x : K)

def weights : K × K :=
  M.solutions.fit p.velocity (p.position - M.rest)

theorem weights_ofValues : (ofValues p).weights = pair M.weights := by
  have hkept := weights_ofParameters (p.map value)
  rw [← ofValues, M.rest_value] at hkept
  exact hkept.trans (M.solutions.fit_value _ _)

theorem slopeWeights_ofValues :
    (ofValues p).slopeWeights = pair (M.solutions.derive M.weights) := by
  have hkept := slopeWeights_ofParameters (p.map value)
  rwa [← ofValues, M.weights_ofValues, M.solutions.differentiate_pair] at hkept

theorem curvatureWeights_ofValues : (ofValues p).curvatureWeights =
    pair (M.solutions.derive (M.solutions.derive M.weights)) := by
  have hkept := curvatureWeights_ofParameters (p.map value)
  rwa [← ofValues, M.slopeWeights_ofValues, M.solutions.differentiate_pair] at hkept

theorem eval_ofValues : (ofValues p).eval (value x) =
    value (p.position + dot M.weights (M.solutions.increment x)) := by
  rw [eval, M.weights_ofValues, M.solutions.basisIncrement_value, combine_pair]
  rfl

theorem slope_ofValues : (ofValues p).slope (value x) =
    value (p.velocity + dot (M.solutions.derive M.weights) (M.solutions.increment x)) := by
  rw [slope, M.slopeWeights_ofValues, M.solutions.basisIncrement_value, combine_pair]
  rfl

theorem curvature_ofValues : (ofValues p).curvature (value x) =
    value (dot (M.solutions.derive (M.solutions.derive M.weights))
      (M.solutions.origin + M.solutions.increment x)) := by
  rw [curvature, M.curvatureWeights_ofValues, M.solutions.basis_value, combine_pair]

theorem dot_weights : dot M.weights M.solutions.origin = p.position - M.rest :=
  M.solutions.dot_fit _ _

theorem dot_derive_weights :
    dot (M.solutions.derive M.weights) M.solutions.origin = p.velocity :=
  M.solutions.dot_derive_fit _ _

theorem curvature_start :
    dot (M.solutions.derive (M.solutions.derive M.weights)) M.solutions.origin =
      p.force - p.damping * p.velocity - p.stiffness * p.position := by
  rw [M.solutions.dot_derive_derive, M.dot_derive_weights, M.dot_weights]
  linear_combination M.stiffness_mul_rest

/-- The equation of motion, for the numbers that the motion is computed as. -/
theorem balance :
    dot (M.solutions.derive (M.solutions.derive M.weights))
          (M.solutions.origin + M.solutions.increment x) +
        p.damping *
          (p.velocity + dot (M.solutions.derive M.weights) (M.solutions.increment x)) +
        p.stiffness * (p.position + dot M.weights (M.solutions.increment x)) =
      p.force := by
  rw [Damping.dot_add, M.curvature_start, M.solutions.dot_derive_derive]
  ring

end Motion

namespace Parameters

def velocityMotion (p : Parameters K) : Parameters K :=
  ⟨p.damping, p.stiffness, 0, p.force - p.damping * p.velocity - p.stiffness * p.position,
    p.velocity⟩

end Parameters

theorem derivative_ofValues : (ofValues p).derivative = ofValues p.velocityMotion := by
  rw [derivative, Exact.zero_eq]
  rfl

namespace Motion

variable (M : Motion p) (x : K)

/-- The derivative has the regime of the oscillator, and rests at zero. -/
def derivative : Motion p.velocityMotion where
  solutions := M.solutions
  rest := 0
  rest_value := by
    rw [ofValues, rest_ofParameters, Parameters.map, Parameters.velocityMotion, Exact.zero_eq,
      Exact.value_beq, if_pos (decide_eq_true rfl)]
  stiffness_mul_rest := mul_zero _

theorem weights_derivative : M.derivative.weights = M.solutions.derive M.weights := by
  have hfit := M.solutions.fit_dot (M.solutions.derive M.weights)
  rw [M.curvature_start, M.dot_derive_weights] at hfit
  rw [← hfit]
  exact congrArg (M.solutions.fit _) (sub_zero p.velocity)

end Motion

section Laws

variable [IsStrictOrderedRing K] [LawfulIncrement K] (h : p.HasRest) (x : K)

include h

theorem slope_eq_eval_derivative :
    (ofValues p).slope (value x) = (ofValues p).derivative.eval (value x) := by
  obtain ⟨M⟩ := nonempty_motion h
  rw [derivative_ofValues, M.derivative.eval_ofValues, M.weights_derivative, M.slope_ofValues]
  rfl

theorem slope_derivative_eq_curvature :
    (ofValues p).derivative.slope (value x) = (ofValues p).curvature (value x) := by
  obtain ⟨M⟩ := nonempty_motion h
  rw [derivative_ofValues, M.derivative.slope_ofValues, M.weights_derivative, M.curvature_ofValues,
    Damping.dot_add, M.curvature_start]
  rfl

end Laws

/-- The motion starts where and as fast as the parameters say, and obeys the equation with their
numbers. -/
structure Solves (o : Oscillator (Exact K)) (p : Parameters K) : Prop where
  position : o.eval 0 = value p.position
  velocity : o.slope 0 = value p.velocity
  equation : ∀ x : K,
    o.curvature (value x) + value p.damping * o.slope (value x) +
        value p.stiffness * o.eval (value x) =
      value p.force

theorem solves_ofValues [IsStrictOrderedRing K] [LawfulStart K] (h : p.HasRest) :
    (ofValues p).Solves p := by
  obtain ⟨M⟩ := nonempty_motion h
  have hzero := M.solutions.increment_zero LawfulStart.exp_zero LawfulStart.sin_zero
  refine ⟨?_, ?_, ?_⟩
  · rw [Exact.zero_eq, M.eval_ofValues, hzero, Damping.dot_zero, add_zero]
  · rw [Exact.zero_eq, M.slope_ofValues, hzero, Damping.dot_zero, add_zero]
  · intro x
    rw [M.eval_ofValues, M.slope_ofValues, M.curvature_ofValues]
    exact congrArg value (M.balance x)

theorem Change.parameters_map (p : Parameters K) (c : Change K) :
    (c.map value).parameters (p.map value) = (c.parameters p).map value := by
  cases c with
  | set => rfl
  | raise => rfl

theorem Parameters.after_map (p : Parameters K) (cs : List (Change K)) :
    (p.map value).after (cs.map (Change.map value)) = (p.after cs).map value := by
  induction cs generalizing p with
  | nil => rfl
  | cons c cs ih =>
    rw [after, List.map_cons, List.foldl_cons, Change.parameters_map]
    exact ih (c.parameters p)

/-- An oscillator told its parameters and then changed any number of times keeps the parameters that
the changes make of them, and its motion solves the problem that these pose. -/
theorem solves_run [IsStrictOrderedRing K] [LawfulStart K] (p : Parameters K)
    (cs : List (Change K)) (h : (p.after cs).HasRest) :
    ((ofValues p).run (cs.map (Change.map value))).toParameters = (p.after cs).map value ∧
      ((ofValues p).run (cs.map (Change.map value))).Solves (p.after cs) := by
  have hrun : (ofValues p).run (cs.map (Change.map value)) = ofValues (p.after cs) := by
    rw [ofValues, run_ofParameters, Parameters.after_map]
    rfl
  rw [hrun]
  exact ⟨rfl, solves_ofValues h⟩

noncomputable def dragged : Parameters ℝ :=
  ⟨5, 1, 1, -3, -1⟩

/-- Along these changes the damping becomes critical and the force comes back. -/
noncomputable def relaxation : List (Change ℝ) :=
  [.raise 3, .set 4 4 0 1 0, .raise 1]

theorem solves_run_dragged :
    (dragged.after relaxation).HasRest ∧
      ((ofValues dragged).run (relaxation.map (Change.map value))).toParameters =
        (⟨4, 4, 4, 1, 1⟩ : Parameters ℝ).map value ∧
      ((ofValues dragged).run (relaxation.map (Change.map value))).Solves ⟨4, 4, 4, 1, 1⟩ := by
  have hafter : dragged.after relaxation = ⟨4, 4, 4, 1, 1⟩ := by
    change (⟨4, 4, 0 + 4 * 1, 1, 0 + 1⟩ : Parameters ℝ) = _
    norm_num
  have h : (dragged.after relaxation).HasRest := by
    rw [hafter]
    exact .inl four_ne_zero
  have hsolves := solves_run dragged relaxation h
  rw [hafter] at hsolves
  exact ⟨h, hsolves⟩

end Curves.Oscillator
