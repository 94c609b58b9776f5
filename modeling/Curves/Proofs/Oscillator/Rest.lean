import Curves.Proofs.Oscillator.Motion

namespace Curves

universe u

namespace Damping

variable {K : Type u} [Field K] [LinearOrder K] [Elementary K] (R : Damping (Exact K))

theorem fit_undefined (v : Exact K) : R.fit v .undefined = (.undefined, .undefined) := by
  cases R <;> simp [fit]

theorem differentiate_undefined :
    R.differentiate (.undefined, .undefined) = (.undefined, .undefined) := by
  cases R <;> simp [differentiate]

end Damping

namespace Oscillator

/-- What an oscillator keeps if it moves about `rest`. -/
def settle {α : Type u} [Scalar α] (p : Parameters α) (rest : α) : Oscillator α :=
  let discriminant := p.damping * p.damping - 4 * p.stiffness
  let regime := Damping.ofDiscriminant p.damping discriminant
  let weights := regime.fit p.velocity (p.position - rest)
  let slopeWeights := regime.differentiate weights
  ⟨p, rest, discriminant, regime, weights, slopeWeights, regime.differentiate slopeWeights⟩

theorem ofParameters_eq_settle {α : Type u} [Scalar α] (p : Parameters α) :
    ofParameters p = settle p (if p.force == 0 then 0 else p.force / p.stiffness) :=
  rfl

variable {K : Type u} [Field K] [LinearOrder K] [Elementary K] {p : Parameters K}

open Exact (value)

theorem ofValues_eq_settle (hf : p.force ≠ 0) :
    ofValues p = settle (p.map value) (value p.force / value p.stiffness) := by
  rw [ofValues, ofParameters_eq_settle, Parameters.map, Exact.zero_eq, Exact.value_beq,
    if_neg (by simpa using hf)]

/-- The motion agrees with the parameters that are kept with it. -/
structure IsSolved (o : Oscillator (Exact K)) : Prop where
  position : o.eval 0 = o.position
  velocity : o.slope 0 = o.velocity
  equation : ∀ x : K,
    o.curvature (value x) + o.damping * o.slope (value x) + o.stiffness * o.eval (value x) =
      o.force

theorem isSolved_ofValues [IsStrictOrderedRing K] [LawfulStart K] (h : p.HasRest) :
    (ofValues p).IsSolved := by
  obtain ⟨hposition, hvelocity, hequation⟩ := solves_ofValues h
  exact ⟨hposition, hvelocity, hequation⟩

def IsUndefined (o : Oscillator (Exact K)) : Prop :=
  ∀ x, o.eval x = .undefined ∧ o.slope x = .undefined ∧ o.curvature x = .undefined

theorem combine_undefined (e : Exact K × Exact K) :
    combine (.undefined, .undefined) e = .undefined :=
  rfl

theorem isUndefined_settle (p : Parameters (Exact K)) : (settle p .undefined).IsUndefined := by
  intro x
  refine ⟨?_, ?_, ?_⟩
  · simp only [eval, settle, Exact.sub_undefined, Damping.fit_undefined, combine_undefined,
      Exact.add_undefined]
  · simp only [slope, settle, Exact.sub_undefined, Damping.fit_undefined,
      Damping.differentiate_undefined, combine_undefined, Exact.add_undefined]
  · simp only [curvature, settle, Exact.sub_undefined, Damping.fit_undefined,
      Damping.differentiate_undefined, combine_undefined]

theorem isUndefined_ofValues (h : ¬p.HasRest) : (ofValues p).IsUndefined := by
  obtain ⟨hs, hf⟩ := not_or.1 h
  rw [ofValues_eq_settle hf, not_not.1 hs, Exact.value_div_zero]
  exact isUndefined_settle _

theorem not_isSolved_of_isUndefined {o : Oscillator (Exact K)} (h : o.IsUndefined) {a : K}
    (hp : o.position = value a) : ¬o.IsSolved := by
  intro hsolved
  have hstart := hsolved.position
  rw [(h 0).1, hp] at hstart
  cases hstart

/-- The parameters seen from `r`, without a force. -/
def Parameters.about (p : Parameters K) (r : K) : Parameters K :=
  { p with force := 0, position := p.position - r }

section Settle

variable (p) (r : K) (x : Exact K)

theorem weights_settle :
    (settle (p.map value) (value r)).weights = (ofValues (p.about r)).weights := by
  have hrest := rest_ofValues (p := p.about r) (.inr rfl)
  rw [ofValues, weights_ofParameters, ← ofValues, hrest, Parameters.about, zero_div]
  change _ = (settle (p.map value) (value r)).regime.fit (value p.velocity)
    (value (p.position - r - 0))
  rw [sub_zero]
  rfl

theorem slopeWeights_settle :
    (settle (p.map value) (value r)).slopeWeights = (ofValues (p.about r)).slopeWeights :=
  congrArg (settle (p.map value) (value r)).regime.differentiate (weights_settle p r)

theorem eval_settle : (settle (p.map value) (value r)).eval x =
    (ofValues (p.about r)).eval x + value r := by
  rw [eval, eval, weights_settle, Exact.add_right_comm]
  change _ = value (p.position - r + r) + _
  rw [sub_add_cancel]
  rfl

theorem slope_settle :
    (settle (p.map value) (value r)).slope x = (ofValues (p.about r)).slope x := by
  rw [slope, slopeWeights_settle]
  rfl

theorem curvature_settle :
    (settle (p.map value) (value r)).curvature x = (ofValues (p.about r)).curvature x :=
  congrArg (fun w => combine ((settle (p.map value) (value r)).regime.differentiate w) _)
    (slopeWeights_settle p r)

end Settle

variable [IsStrictOrderedRing K] [LawfulStart K]

theorem isSolved_settle {r : K} (h : p.stiffness * r = p.force) :
    (settle (p.map value) (value r)).IsSolved := by
  obtain ⟨hposition, hvelocity, hequation⟩ := isSolved_ofValues (p := p.about r) (.inr rfl)
  refine ⟨?_, ?_, ?_⟩
  · rw [eval_settle, hposition]
    exact congrArg value (sub_add_cancel p.position r)
  · rw [slope_settle, hvelocity]
    rfl
  · intro x
    rw [eval_settle, slope_settle, curvature_settle, Exact.mul_add, ← Exact.add_assoc]
    change _ + value (p.stiffness * r) = value p.force
    rw [h]
    exact (congrArg (· + value p.force) (hequation x)).trans (Exact.zero_add _)

/-- Only a number that balances the force makes the motion about it solve its problem. -/
theorem isSolved_settle_iff {rest : Exact K} :
    (settle (p.map value) rest).IsSolved ↔ ∃ r, rest = value r ∧ p.stiffness * r = p.force := by
  constructor
  · intro h
    cases rest with
    | undefined => exact (not_isSolved_of_isUndefined (isUndefined_settle _) rfl h).elim
    | value r =>
      have hr := isSolved_settle (p := { p with force := p.stiffness * r }) rfl
      exact ⟨r, rfl, Exact.value.inj ((hr.equation 0).symm.trans (h.equation 0))⟩
  · rintro ⟨r, rfl, hr⟩
    exact isSolved_settle hr

/-- Under a force and without a spring, all of the motion is undefined. Whatever else the division
by the stiffness gave, the motion would not solve its problem; about a number it would solve the
one without the force. -/
theorem unsolved_without_spring (hs : p.stiffness = 0) (hf : p.force ≠ 0) :
    (ofValues p).IsUndefined ∧
      ofValues p = settle (p.map value) (value p.force / value p.stiffness) ∧
      (∀ rest, ¬(settle (p.map value) rest).IsSolved) ∧
      ∀ r, { settle (p.map value) (value r) with force := value 0 }.IsSolved := by
  refine ⟨?_, ofValues_eq_settle hf, ?_, ?_⟩
  · exact isUndefined_ofValues (not_or.2 ⟨not_not.2 hs, hf⟩)
  · intro rest h
    obtain ⟨r, -, hr⟩ := isSolved_settle_iff.1 h
    rw [hs, zero_mul] at hr
    exact hf hr.symm
  · intro r
    exact isSolved_settle (p := { p with force := 0 }) (by rw [hs, zero_mul])

/-- A mass with a damper and no spring, under a force. -/
def pushed : Parameters ℝ :=
  ⟨1, 0, 1, 1, -1⟩

theorem unsolved_without_spring_pushed :
    pushed.stiffness = 0 ∧ pushed.force ≠ 0 ∧ (ofValues pushed).IsUndefined ∧
      ofValues pushed = settle (pushed.map value) (value pushed.force / value pushed.stiffness) ∧
      (∀ rest, ¬(settle (pushed.map value) rest).IsSolved) ∧
      ∀ r, { settle (pushed.map value) (value r) with force := value 0 }.IsSolved :=
  ⟨rfl, one_ne_zero, unsolved_without_spring rfl one_ne_zero⟩

/-- The mass does not even start where it is told to. -/
theorem ofSpring_pushed_undefined :
    (ofSpring (value 0) (value 1) (value 1) (value 3) (value 2) (value (1 : ℝ))).eval 0 =
        .undefined ∧
      (ofSpring (value 0) (value 1) (value 1) (value 3) (value 2) (value (1 : ℝ))).slope 0 =
        .undefined ∧
      (ofSpring (value 0) (value 1) (value 1) (value 3) (value 2) (value (1 : ℝ))).curvature 0 =
        .undefined := by
  have h : ofSpring (value 0) (value 1) (value 1) (value 3) (value 2) (value (1 : ℝ)) =
      ofValues ⟨1, 0, 1, 2, 3⟩ := by
    simp only [ofSpring, Exact.div_value_one]
    rfl
  rw [h]
  exact isUndefined_ofValues (by simp [Parameters.HasRest]) 0

end Oscillator
end Curves
