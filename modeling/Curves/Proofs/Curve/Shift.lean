import Curves.Proofs.Curve.Domain
import Curves.Proofs.Curve.Shape
import Curves.Proofs.Oscillator.Motion
import Curves.Proofs.Polynomial.Calculus

namespace Curves

universe u

variable {K : Type u} [Field K] [LinearOrder K] [Elementary K]

open Exact (value)

namespace Affine

variable {t : Affine (Exact K)}

theorem Regular.yMul_ne_zero (h : t.Regular) : t.yMul ≠ 0 := by
  obtain ⟨n, hn, hn0⟩ := h.yMul
  rw [hn, Exact.zero_eq, ne_eq, Exact.value.injEq]
  exact hn0

theorem apply_raise (h : t.yMul ≠ 0) (v y : Exact K) : (t.raise v).apply y = t.apply y + v := by
  obtain ⟨a, m, b, n⟩ := t
  cases n with
  | undefined => rfl
  | value n =>
    have hn : n ≠ 0 := fun hn => h (by rw [hn, Exact.zero_eq])
    rw [apply, apply, raise, Exact.add_right_comm, Exact.mul_add, Exact.value_mul_div hn]

/-- The shift comes back in the slope, multiplied by the factor of the axis. -/
theorem derivative_apply_raise (h : t.yMul ≠ 0) (v y : Exact K) :
    (t.raise v).derivative.apply y = t.derivative.apply y + t.xMul * v := by
  obtain ⟨a, m, b, n⟩ := t
  cases n with
  | undefined => rfl
  | value n =>
    have hn : n ≠ 0 := fun hn => h (by rw [hn, Exact.zero_eq])
    have hv : value n * m * (v / value n) = m * v := by
      rw [Exact.mul_comm (value n), Exact.mul_assoc, Exact.value_mul_div hn]
    rw [apply, apply, derivative, derivative, raise, Exact.add_right_comm, Exact.mul_add, hv]

end Affine

namespace Oscillator

variable {p : Parameters K}

def Parameters.raise (p : Parameters K) (v : K) : Parameters K :=
  { p with force := p.force + p.stiffness * v, position := p.position + v }

theorem raise_ofValues (p : Parameters K) (v : K) :
    (ofValues p).raise (value v) = ofValues (p.raise v) :=
  rfl

theorem weights_raise (hs : p.stiffness ≠ 0) (v : K) :
    (ofValues (p.raise v)).weights = (ofValues p).weights := by
  have hrest := rest_ofValues (p := p) (.inl hs)
  have hrest' := rest_ofValues (p := p.raise v) (.inl hs)
  rw [ofValues, ofValues, weights_ofParameters, weights_ofParameters, ← ofValues, ← ofValues,
    hrest, hrest']
  have hmoved : p.position + v - (p.force + p.stiffness * v) / p.stiffness =
      p.position - p.force / p.stiffness := by
    rw [add_div, mul_div_cancel_left₀ v hs, add_sub_add_right_eq_sub]
  exact congrArg (fun c => (ofValues p).regime.fit (value p.velocity) (value c)) hmoved

theorem slopeWeights_raise (hs : p.stiffness ≠ 0) (v : K) :
    (ofValues (p.raise v)).slopeWeights = (ofValues p).slopeWeights :=
  congrArg (ofValues p).regime.differentiate (weights_raise hs v)

theorem eval_raise (hs : p.stiffness ≠ 0) (v x : Exact K) :
    ((ofValues p).raise v).eval x = (ofValues p).eval x + v := by
  cases v with
  | undefined =>
    rw [Exact.add_undefined]
    rfl
  | value v =>
    rw [raise_ofValues, eval, eval, weights_raise hs, Exact.add_right_comm]
    rfl

theorem slope_raise (hs : p.stiffness ≠ 0) (v : K) (x : Exact K) :
    ((ofValues p).raise (value v)).slope x = (ofValues p).slope x := by
  rw [raise_ofValues, slope, slopeWeights_raise hs]
  rfl

end Oscillator

namespace Curve

/-- Changes of axes have a factor to divide a shift by, and oscillators, given by numbers, have a
spring. -/
def IsShiftable : Curve (Exact K) → Prop
  | .polynomial _ | .piecewise _ => True
  | .affine t _ => t.yMul ≠ 0
  | .oscillator o => ∃ p : Oscillator.Parameters K, p.stiffness ≠ 0 ∧ o = .ofValues p

variable {f : Curve (Exact K)} {bands : List (Band (Exact K) (Curve (Exact K)))} {x : Exact K}

theorem Everywhere.isShiftable (h : RegularTree f) : Everywhere IsShiftable f := by
  apply h.mono
  intro f hf
  cases f with
  | polynomial => trivial
  | piecewise => trivial
  | affine => exact Affine.Regular.yMul_ne_zero hf
  | oscillator => exact hf.elim

theorem eval_raiseBands {v : Exact K}
    (h : ∀ b ∈ bands, (b.body.raise v).eval x = b.body.eval x + v) :
    (piecewise (raiseBands bands v)).eval x = (piecewise bands).eval x + v := by
  induction bands with
  | nil => rfl
  | cons b bands ih =>
    obtain ⟨lo, hi, f⟩ := b
    obtain ⟨hf, hbands⟩ := List.forall_mem_cons.1 h
    rw [raiseBands, eval_cons, eval_cons, ih hbands, hf]
    change (if Band.contains ⟨lo, hi, f⟩ x then _ else _) =
      (if Band.contains ⟨lo, hi, f⟩ x then _ else _) + v
    split_ifs
    · rfl
    · rfl

theorem Everywhere.eval_raise (h : Everywhere IsShiftable f) (v x : Exact K) :
    (f.raise v).eval x = f.eval x + v := by
  induction h generalizing x with
  | polynomial => exact Polynomial.eval_raise _ v x
  | piecewise _ _ ih => exact eval_raiseBands fun b hb => ih b hb x
  | affine ht => exact Affine.apply_raise ht v _
  | oscillator h =>
    obtain ⟨p, hs, rfl⟩ := h
    exact Oscillator.eval_raise hs v x

theorem Everywhere.isShiftable_raise (h : Everywhere IsShiftable f) (v : K) :
    Everywhere IsShiftable (f.raise (value v)) := by
  apply h.raise_of
  intro f hf
  cases f with
  | polynomial => trivial
  | piecewise => trivial
  | affine => exact hf
  | oscillator =>
    obtain ⟨p, hs, rfl⟩ := hf
    exact ⟨p.raise v, hs, Oscillator.raise_ofValues p v⟩

/-- A shift by a number adds it to every value and leaves the domain alone, and the shift back
restores all values. -/
theorem eval_raise_lower (h : Everywhere IsShiftable f) (v : K) (x : Exact K) :
    (f.raise (value v)).eval x = f.eval x + value v ∧
      ((f.raise (value v)).eval x = .undefined ↔ f.eval x = .undefined) ∧
      ((f.raise (value v)).lower (value v)).eval x = f.eval x := by
  have hraise := h.eval_raise (value v) x
  refine ⟨hraise, ?_, ?_⟩
  · rw [hraise, Exact.add_value_eq_undefined_iff]
  · rw [lower, (h.isShiftable_raise v).eval_raise, hraise, Exact.add_assoc, Exact.value_neg,
      Exact.value_add, add_neg_cancel, Exact.add_zero]

/-- One band for each kind of curve. The oscillator is under a force that a shift by one takes
away. -/
noncomputable def mixedBands : Curve (Exact ℝ) := .piecewise
  [⟨value (-1), value 0, .oscillator (.ofValues ⟨1, 1, -1, 0, 1⟩)⟩,
    ⟨value 0, value 1, .piecewise [⟨value 0, value 1, .polynomial ⟨[], value 0⟩⟩]⟩,
    ⟨value 1, value (1 + 1),
      .affine ⟨value 1, value (-1), value 1, value (1 + 1)⟩
        (.polynomial ⟨[value 0, value 1], value 0⟩)⟩]

theorem isShiftable_mixedBands : Everywhere IsShiftable mixedBands := by
  have hp (p : Polynomial (Exact ℝ)) : Everywhere IsShiftable (.polynomial p) :=
    .polynomial trivial
  have hfactor : (value (1 + 1) : Exact ℝ) ≠ 0 := by
    rw [Exact.zero_eq, ne_eq, Exact.value.injEq]
    norm_num
  apply Everywhere.piecewise trivial
  simp only [List.forall_mem_cons]
  refine ⟨.oscillator ⟨_, one_ne_zero, rfl⟩, .piecewise trivial ?_, .affine hfactor (hp _), nofun⟩
  exact List.forall_mem_singleton.2 (hp _)

theorem eval_raise_lower_mixedBands :
    Everywhere IsShiftable mixedBands ∧
      (mixedBands.raise (value 1)).eval (value (-1 / 2)) =
        mixedBands.eval (value (-1 / 2)) + value 1 ∧
      ((mixedBands.raise (value 1)).eval (value 3) = .undefined ↔
        mixedBands.eval (value 3) = .undefined) ∧
      ((mixedBands.raise (value 1)).lower (value 1)).eval (value (3 / 2)) =
        mixedBands.eval (value (3 / 2)) :=
  ⟨isShiftable_mixedBands, (eval_raise_lower isShiftable_mixedBands 1 _).1,
    (eval_raise_lower isShiftable_mixedBands 1 _).2.1,
    (eval_raise_lower isShiftable_mixedBands 1 _).2.2⟩

section Tilt

variable {α : Type u} [Scalar α]

mutual

/-- What a shift by one adds to the slope: the factor of the axis where bands lead to a change of
axes, and nothing where they lead to a curve of another kind. -/
def tilt : Curve α → α → α
  | polynomial _, _ => 0
  | piecewise bands, x => tiltBands bands x
  | affine t _, _ => t.xMul
  | oscillator _, _ => 0

def tiltBands : List (Band α (Curve α)) → α → α
  | [], _ => 0
  | ⟨lo, hi, f⟩ :: bands, x =>
    if Band.contains ⟨lo, hi, f⟩ x then f.tilt x else tiltBands bands x

end

end Tilt

theorem slopeBands_raiseBands {v : Exact K}
    (h : ∀ b ∈ bands, (b.body.raise v).slope x = b.body.slope x + b.body.tilt x * v) :
    slopeBands (raiseBands bands v) x = slopeBands bands x + tiltBands bands x * v := by
  induction bands with
  | nil => rfl
  | cons b bands ih =>
    obtain ⟨lo, hi, f⟩ := b
    obtain ⟨hf, hbands⟩ := List.forall_mem_cons.1 h
    rw [raiseBands, slopeBands, slopeBands, tiltBands, ih hbands, hf]
    change (if Band.contains ⟨lo, hi, f⟩ x then _ else _) = _
    split_ifs
    · rfl
    · rfl

theorem Everywhere.slope_raise (h : Everywhere IsShiftable f) (v : K) (x : Exact K) :
    (f.raise (value v)).slope x = f.slope x + f.tilt x * value v := by
  have hlevel (y : Exact K) : y + 0 * value v = y := by
    rw [Exact.zero_eq, Exact.value_mul, zero_mul, Exact.add_zero]
  induction h generalizing x with
  | polynomial => rw [Curve.raise, slope, slope, Polynomial.slope_raise, tilt, hlevel]
  | piecewise _ _ ih => exact slopeBands_raiseBands fun b hb => ih b hb x
  | affine ht => exact Affine.derivative_apply_raise ht _ _
  | oscillator h =>
    obtain ⟨p, hs, rfl⟩ := h
    rw [Curve.raise, slope, slope, Oscillator.slope_raise hs, tilt, hlevel]

theorem isValue_tiltBands (h : ∀ b ∈ bands, (b.body.slope x).IsValue → (b.body.tilt x).IsValue)
    (hx : (slopeBands bands x).IsValue) : (tiltBands bands x).IsValue := by
  induction bands with
  | nil => exact ⟨0, Exact.zero_eq⟩
  | cons b bands ih =>
    obtain ⟨lo, hi, f⟩ := b
    obtain ⟨hf, hbands⟩ := List.forall_mem_cons.1 h
    rw [slopeBands] at hx
    rw [tiltBands]
    split_ifs at hx ⊢
    · exact hf hx
    · exact ih hbands hx

theorem Everywhere.isValue_tilt (h : Everywhere IsShiftable f) (hx : (f.slope x).IsValue) :
    (f.tilt x).IsValue := by
  induction h generalizing x with
  | polynomial => exact ⟨0, Exact.zero_eq⟩
  | piecewise _ _ ih => exact isValue_tiltBands (fun b hb => ih b hb) hx
  | @affine t f =>
    by_contra htilt
    have hm : t.xMul = .undefined := Exact.not_isValue_iff.1 htilt
    rw [slope, Affine.apply, Affine.derivative, hm, Exact.mul_undefined, Exact.undefined_mul] at hx
    exact Exact.not_isValue_iff.2 rfl hx
  | oscillator => exact ⟨0, Exact.zero_eq⟩

/-- A shift by `v` adds `v` times the tilt to the slope. So a slope stays as it is where there is no
tilt, and nowhere else. -/
theorem slope_raise_eq_add_tilt (h : Everywhere IsShiftable f) (v : K) (x : Exact K) :
    (f.raise (value v)).slope x = f.slope x + f.tilt x * value v ∧
      ((f.raise (value v)).slope x = f.slope x ↔
        f.slope x = .undefined ∨ f.tilt x = 0 ∨ v = 0) := by
  have hraise := h.slope_raise v x
  refine ⟨hraise, ?_⟩
  rw [hraise]
  by_cases hx : (f.slope x).IsValue
  · obtain ⟨m, hm⟩ := h.isValue_tilt hx
    obtain ⟨a, ha⟩ := hx
    simp only [ha, hm, Exact.zero_eq, Exact.value_mul, Exact.value_add, Exact.value.injEq,
      add_eq_left, mul_eq_zero, reduceCtorEq, false_or]
  · rw [Exact.not_isValue_iff] at hx
    rw [hx, Exact.undefined_add]
    exact ⟨fun _ => .inl rfl, fun _ => rfl⟩

theorem slope_raise_eq_add_tilt_mixedBands :
    Everywhere IsShiftable mixedBands ∧
      (mixedBands.raise (value 1)).slope (value (3 / 2)) =
        mixedBands.slope (value (3 / 2)) + mixedBands.tilt (value (3 / 2)) * value 1 ∧
      ((mixedBands.raise (value 1)).slope (value (-1 / 2)) = mixedBands.slope (value (-1 / 2)) ↔
        mixedBands.slope (value (-1 / 2)) = .undefined ∨ mixedBands.tilt (value (-1 / 2)) = 0 ∨
          (1 : ℝ) = 0) :=
  ⟨isShiftable_mixedBands, (slope_raise_eq_add_tilt isShiftable_mixedBands 1 _).1,
    (slope_raise_eq_add_tilt isShiftable_mixedBands 1 _).2⟩

def wrappedLine : Curve (Exact ℝ) :=
  .affine ⟨value 0, value 1, value 0, value 1⟩ (.polynomial ⟨[value 0, value 1], value 0⟩)

/-- A shift by one doubles the slope. -/
theorem slope_raise_wrappedLine :
    RegularTree wrappedLine ∧ wrappedLine.slope (value 0) = value 1 ∧
      (wrappedLine.raise (value 1)).slope (value 0) = value 2 := by
  refine ⟨.affine ⟨⟨1, rfl, one_ne_zero⟩, 1, rfl, one_ne_zero⟩ (.polynomial trivial), ?_, ?_⟩
  · simp [wrappedLine, slope, Polynomial.slope, Affine.derivative, Affine.apply, Affine.inner]
  · simp [wrappedLine, slope, raise, Polynomial.slope, Affine.derivative, Affine.apply,
      Affine.inner, Affine.raise, one_add_one_eq_two]

end Curve
end Curves
