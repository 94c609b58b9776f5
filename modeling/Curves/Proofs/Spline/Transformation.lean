import Curves.Proofs.Spline.Neighbours

namespace Curves

universe u v

open Exact (value)

def Affine.map {α : Type u} {β : Type v} (g : α → β) (t : Affine α) : Affine β :=
  ⟨g t.xAdd, g t.xMul, g t.yAdd, g t.yMul⟩

variable {K : Type u} [Field K]

/-- The control point as it is seen from outside the change of axes. -/
def ControlPoint.along (t : Affine K) (p : ControlPoint K) : ControlPoint K :=
  ⟨p.x / t.xMul - t.xAdd, t.yMul * (t.yAdd + p.y), p.slope?.map (t.yMul * t.xMul * ·)⟩

namespace Spline

variable {t : Affine K} {o p q : ControlPoint K} {o? q? r? : Option (ControlPoint K)}

theorem rise_along (t : Affine K) (p q : ControlPoint K) :
    rise (p.along t) (q.along t) = t.yMul * t.xMul * rise p q := by
  have hy : t.yMul * (t.yAdd + q.y) - t.yMul * (t.yAdd + p.y) = t.yMul * (q.y - p.y) := by ring
  have hx : q.x / t.xMul - t.xAdd - (p.x / t.xMul - t.xAdd) = (q.x - p.x) / t.xMul := by ring
  simp only [rise, ControlPoint.along]
  rw [hy, hx, div_div_eq_mul_div, mul_right_comm, mul_div_assoc]

theorem halfSlopes_mul (c i : K) (s? e? : Option K) :
    halfSlopes (c * i) (s?.map (c * ·)) (e?.map (c * ·)) =
      (c * (halfSlopes i s? e?).1, c * (halfSlopes i s? e?).2) := by
  cases s? with
  | none =>
    cases e? with
    | none => rfl
    | some e => simp only [Option.map_none, Option.map_some, halfSlopes, mul_sub, mul_add]
  | some s =>
    cases e? with
    | none => rfl
    | some e =>
      simp only [Option.map_some, halfSlopes, mul_sub, mul_add, mul_div_assoc', add_div]

variable [LinearOrder K] [IsStrictOrderedRing K]

omit [LinearOrder K] [IsStrictOrderedRing K] in
theorem middle_along [NeZero (2 : K)] (t : Affine K) (p q : ControlPoint K) :
    middle (p.along t) (q.along t) = middle p q / t.xMul - t.xAdd := by
  have htwo : (2 : K) ≠ 0 := two_ne_zero
  simp only [middle, ControlPoint.along]
  field_simp
  ring

theorem isExtremum_mul_add {n : K} (hn : n ≠ 0) (b x y z : K) :
    IsExtremum (n * (b + x)) (n * (b + y)) (n * (b + z)) ↔ IsExtremum x y z := by
  rcases hn.lt_or_gt with hneg | hpos
  · simp only [IsExtremum, mul_lt_mul_left_of_neg hneg, add_lt_add_iff_left]
    exact or_comm
  · simp only [IsExtremum, mul_lt_mul_iff_right₀ hpos, add_lt_add_iff_left]

variable [Elementary K] {options : Options}

theorem innerRise_along (hmean : options.atanMean = false) (t : Affine K)
    (o p q : ControlPoint K) :
    innerRise options (o.along t) (p.along t) (q.along t) =
      t.yMul * t.xMul * innerRise options o p q := by
  rw [innerRise_of_mean hmean, innerRise_of_mean hmean, rise_along, rise_along, ← mul_add,
    mul_div_assoc]
  by_cases hn : t.yMul = 0
  · simp only [hn, zero_mul, ite_self]
  · simp only [ControlPoint.along, isExtremum_mul_add hn, mul_ite, mul_zero]

theorem slopeBetween_along (hmean : options.atanMean = false) (t : Affine K)
    (o? : Option (ControlPoint K)) (p : ControlPoint K) (q? : Option (ControlPoint K)) :
    slopeBetween (innerRise options) (o?.map (ControlPoint.along t)) (p.along t)
        (q?.map (ControlPoint.along t)) =
      (slopeBetween (innerRise options) o? p q?).map (t.yMul * t.xMul * ·) := by
  rw [slopeBetween, slopeBetween, Option.map_or]
  apply congrArg
  cases o? with
  | none => rfl
  | some o =>
    cases q? with
    | none => rfl
    | some q => exact congrArg some (innerRise_along hmean t o p q)

theorem slopesTowards_along (hmean : options.atanMean = false) (t : Affine K)
    (o? : Option (ControlPoint K)) (p q : ControlPoint K) (r? : Option (ControlPoint K)) :
    slopesTowards options (o?.map (ControlPoint.along t)) (p.along t) (q.along t)
        (r?.map (ControlPoint.along t)) =
      (t.yMul * t.xMul * (slopesTowards options o? p q r?).1,
        t.yMul * t.xMul * (slopesTowards options o? p q r?).2) := by
  have hp := slopeBetween_along hmean t o? p (some q)
  have hq := slopeBetween_along hmean t (some p) q r?
  rw [Option.map_some] at hp hq
  rw [slopesTowards, rise_along, hp, hq, halfSlopes_mul]
  rfl

theorem eval_towards_along (hmean : options.atanMean = false) (hm : t.xMul ≠ 0)
    (o? : Option (ControlPoint K)) (p q : ControlPoint K) (r? : Option (ControlPoint K)) (a : K) :
    (towards options (o?.map (ControlPoint.along t)) (p.along t) (q.along t)
        (r?.map (ControlPoint.along t))).eval (value a) =
      (t.map value).apply
        ((towards options o? p q r?).eval (value (t.xMul * (t.xAdd + a)))) := by
  have hfar : middle p q / t.xMul - t.xAdd - (p.along t).x = (middle p q - p.x) / t.xMul := by
    rw [ControlPoint.along, sub_sub_sub_cancel_right, sub_div]
  have hnear : a - (p.along t).x = (t.xMul * (t.xAdd + a) - p.x) / t.xMul := by
    rw [ControlPoint.along, sub_div, mul_div_cancel_left₀ _ hm]
    ring
  have hcurvature (s m w : K) :
      (t.yMul * t.xMul * m - t.yMul * t.xMul * s) / (2 * (w / t.xMul)) =
        t.yMul * t.xMul * t.xMul * ((m - s) / (2 * w)) := by
    rw [← mul_div_assoc, div_div_eq_mul_div, ← mul_sub]
    ring
  rw [towards, towards, slopesTowards_along hmean, eval_half, eval_half, middle_along, hfar, hnear,
    hcurvature]
  generalize (slopesTowards options o? p q r?).1 = s
  generalize ((slopesTowards options o? p q r?).2 - s) / (2 * (middle p q - p.x)) = d
  simp only [Affine.apply, Affine.map, ControlPoint.along, Exact.value_add, Exact.value_mul]
  apply congrArg
  field_simp
  ring

omit [Elementary K] in
/-- The points in ascending order, seen from outside the change of axes, are in ascending or in
descending order. -/
theorem Arranges.exists_along {sorted points : List (ControlPoint K)} (h : Arranges sorted points)
    (hm : t.xMul ≠ 0) :
    ∃ moved, Arranges moved (points.map (ControlPoint.along t)) ∧
      ∀ o? p q r?, Beside moved o? p q r? ↔
        Beside (sorted.map (ControlPoint.along t)) o? p q r? := by
  have hperm := h.perm.map (ControlPoint.along t)
  rcases hm.lt_or_gt with hneg | hpos
  · refine ⟨(sorted.map (ControlPoint.along t)).reverse, ⟨?_, ?_⟩, ?_⟩
    · exact (List.reverse_perm _).trans hperm
    · rw [List.pairwise_reverse, List.pairwise_map]
      apply h.ascending.imp
      intro p q hpq
      exact sub_lt_sub_right (div_lt_div_of_neg_of_lt hneg hpq) _
    · intro o? p q r?
      exact beside_reverse_iff
  · refine ⟨sorted.map (ControlPoint.along t), ⟨hperm, ?_⟩, fun _ _ _ _ => Iff.rfl⟩
    rw [List.pairwise_map]
    apply h.ascending.imp
    intro p q hpq
    exact sub_lt_sub_right (div_lt_div_of_pos_right hpq hpos) _

omit [Elementary K] in
theorem mem_uIcc_along_iff (hm : t.xMul ≠ 0) (p q : ControlPoint K) (a : K) :
    a ∈ Set.uIcc (p.along t).x (middle (p.along t) (q.along t)) ↔
      t.xMul * (t.xAdd + a) ∈ Set.uIcc p.x (middle p q) := by
  rw [middle_along]
  exact Affine.mem_uIcc_outer_iff t.xAdd hm a p.x (middle p q)

/-- A change of axes can be made to the control points or to the spline through them. -/
theorem eval_spline_along (options : Options) (hmean : options.atanMean = false)
    (points : List (ControlPoint K)) (hx : (points.map (·.x)).Nodup) (t : Affine K)
    (hm : t.xMul ≠ 0) (x : Exact K) :
    (Curve.spline options
        ((points.map (ControlPoint.along t)).map (ControlPoint.map value))).eval x =
      (Curve.affine (t.map value)
        (Curve.spline options (points.map (ControlPoint.map value)))).eval x := by
  obtain ⟨sorted, hperm, hlt, -⟩ := sortPoints_map points hx
  have h : Arranges sorted points := ⟨hperm, hlt⟩
  obtain ⟨moved, hmoved, hbeside⟩ := h.exists_along hm
  rw [Curve.eval]
  by_cases hv : ((Curve.spline options (points.map (ControlPoint.map value))).eval
      ((t.map value).inner x)).IsValue
  · obtain ⟨u, hu, o?, p, q, r?, hb, hmem⟩ := (h.isValue_eval_iff options _).1 hv
    cases x with
    | undefined => cases hu
    | value a =>
      cases hu
      have hbm := (hbeside _ _ _ _).2 (hb.map (ControlPoint.along t))
      rw [hmoved.eval_eq options hbm ((mem_uIcc_along_iff hm p q a).2 hmem),
        eval_towards_along hmean hm]
      exact congrArg (t.map value).apply (h.eval_eq options hb hmem).symm
  · have hundefined : (t.map value).apply .undefined = .undefined := rfl
    rw [Exact.not_isValue_iff.1 hv, hundefined, ← Exact.not_isValue_iff]
    intro hmv
    apply hv
    obtain ⟨a, rfl, o?, p, q, r?, hbm, hmem⟩ := (hmoved.isValue_eval_iff options x).1 hmv
    obtain ⟨o?, p, q, r?, hb, rfl, rfl, rfl, rfl⟩ := ((hbeside _ _ _ _).1 hbm).exists_of_map
    apply (h.isValue_eval_iff options _).2
    exact ⟨_, rfl, o?, p, q, r?, hb, (mem_uIcc_along_iff hm p q a).1 hmem⟩

theorem eval_spline_along_peak :
    (peak.map (·.x)).Nodup ∧ (-1 : ℝ) ≠ 0 ∧
      (Curve.spline ⟨true, false⟩ ((peak.map (ControlPoint.along ⟨1, -1, 0, 2⟩)).map
          (ControlPoint.map value))).eval (value 1) =
        (Curve.affine ⟨value 1, value (-1), value 0, value 2⟩
          (Curve.spline ⟨true, false⟩ (peak.map (ControlPoint.map value)))).eval (value 1) := by
  have hx : (peak.map (·.x)).Nodup := by norm_num [peak]
  have hm : (-1 : ℝ) ≠ 0 := neg_ne_zero.2 one_ne_zero
  exact ⟨hx, hm, eval_spline_along ⟨true, false⟩ rfl peak hx ⟨1, -1, 0, 2⟩ hm (value 1)⟩

end Spline
end Curves
