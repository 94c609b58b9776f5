import Curves.Proofs.Curve.Continuity
import Curves.Proofs.Spline.Interpolation

namespace Curves.Spline

universe u

variable {K : Type u} [Field K] [LinearOrder K] [Elementary K] {p q : ControlPoint K}
  {s t m x r a : K} {ps : List (ControlPoint K)} {bands : List (Band (Exact K) (Curve (Exact K)))}

open Exact (value)
open Curve (piecewise antiderivativeAfter antiderivativeAfter_cons_ok_iff RegularTree isShiftBy_raise)

/-- The halves of the span between `p` and `q`, the one with the number `i`, have the slopes `d` and
`e` at these points. -/
def HasEndSlopes (bands : List (Band (Exact K) (Curve (Exact K)))) (i : ℕ) (p q : ControlPoint K)
    (d e : K) : Prop :=
  ∃ b c, bands[2 * i]? = some b ∧ bands[2 * i + 1]? = some c ∧
    b.body.slope (value p.x) = value d ∧ c.body.slope (value q.x) = value e

theorem HasEndSlopes.succ {i : ℕ} {d e : K} (h : HasEndSlopes bands i p q d e)
    (b c : Band (Exact K) (Curve (Exact K))) :
    HasEndSlopes (b :: c :: bands) (i + 1) p q d e := h

def startingWith (a : K) (f : ℕ → K) : ℕ → K :=
  fun i => Nat.casesOn (motive := fun _ => K) i a f

omit [LinearOrder K] [Elementary K] in
theorem sum_startingWith (a : K) (f : ℕ → K) (n : ℕ) :
    ∑ i ∈ Finset.range (n + 1), startingWith a f i = a + ∑ i ∈ Finset.range n, f i := by
  rw [Finset.sum_range_succ', add_comm]
  rfl

variable [IsStrictOrderedRing K]

theorem exists_antiderivative_half (hx : x - p.x ≠ 0) :
    ∃ own, (half p s x m).antiderivative 0 = .ok own ∧ RegularTree own ∧
      own.eval (value p.x) = value 0 ∧
      own.eval (value x) = value (p.y * (x - p.x) + (2 * s + m) * (x - p.x) ^ 2 / 6) := by
  refine ⟨.polynomial ⟨[value 0, value p.y, value (s / 2),
    value ((m - s) / (2 * (x - p.x)) / 3)], value p.x⟩, ?_, .polynomial trivial, ?_, ?_⟩
  · have h3 : (2 + 1 : K) = 3 := by norm_num
    simp [half, Curve.antiderivative, Polynomial.antiderivative, Polynomial.antiderivativeCoefs,
      Exact.value_div, one_add_one_eq_two, h3]
  · simp [Curve.eval, Polynomial.eval, Polynomial.horner]
  · simp only [Curve.eval, Polynomial.eval, Polynomial.horner, Exact.mulAdd_eq, Exact.value_sub,
      Exact.value_mul, Exact.value_add, Exact.value.injEq]
    field_simp
    ring

/-- Over a span the antiderivative grows by the corrected trapezoid. -/
theorem antiderivativeAfter_span (hx : p.x < q.x)
    (ha : a = (q.x - p.x) * (p.y + q.y) / 2 + (q.x - p.x) ^ 2 * (s - t) / 12)
    {gs : List (Band (Exact K) (Curve (Exact K)))}
    (hgs : antiderivativeAfter bands (value (r + a)) = .ok gs) :
    ∃ f g, antiderivativeAfter (⟨value p.x, value (middle p q), half p s (middle p q) m⟩ ::
        ⟨value (middle p q), value q.x, half q t (middle p q) m⟩ :: bands) (value r) =
          .ok (⟨value p.x, value (middle p q), f⟩ :: ⟨value (middle p q), value q.x, g⟩ :: gs) ∧
      f.eval (value p.x) = value r ∧ g.eval (value q.x) = value (r + a) := by
  obtain ⟨f, hf, hfr, hf0, hf1⟩ := exists_antiderivative_half (s := s) (m := m)
    (sub_ne_zero.2 (left_lt_middle hx).ne')
  obtain ⟨g, hg, hgr, hg0, hg1⟩ := exists_antiderivative_half (s := t) (m := m)
    (sub_ne_zero.2 (middle_lt_right hx).ne)
  generalize hA : p.y * (middle p q - p.x) + (2 * s + m) * (middle p q - p.x) ^ 2 / 6 = A at hf1
  generalize hB : q.y * (middle p q - q.x) + (2 * t + m) * (middle p q - q.x) ^ 2 / 6 = B at hg1
  have harea : A - B = a := by
    rw [← hA, ← hB, ha, middle]
    ring
  have hleft := isShiftBy_raise hfr r
  have hright := isShiftBy_raise hgr (r + a)
  have hmiddle : (f.raise (value r)).eval (value (middle p q)) = value (r + a + B) := by
    rw [hleft, hf1, Exact.value_add, ← harea]
    apply congrArg
    ring
  have hend : (g.raise (value (r + a))).eval (value q.x) = value (r + a) := by
    rw [hright, hg0, Exact.value_add, zero_add]
  refine ⟨f.raise (value r), g.raise (value (r + a)), ?_, ?_, hend⟩
  · have hstart : value r - f.eval (value p.x) = value r := by
      rw [hf0, Exact.value_sub, sub_zero]
    have hnext : value (r + a + B) - g.eval (value (middle p q)) = value (r + a) := by
      rw [hg1, Exact.value_sub, add_sub_cancel_right]
    refine antiderivativeAfter_cons_ok_iff.2 ⟨f, _, hf, ?_, by rw [hstart]⟩
    rw [hstart, hmiddle]
    refine antiderivativeAfter_cons_ok_iff.2 ⟨g, gs, hg, ?_, by rw [hnext]⟩
    rw [hnext, hend, hgs]
  · rw [hleft, hf0, Exact.value_add, zero_add]

theorem Through.antiderivativeAfter (h : Through p s ps bands) :
    ∃ d e area : ℕ → K,
      (∀ i (hi : i + 1 < (p :: ps).length), HasEndSlopes bands i (p :: ps)[i] (p :: ps)[i + 1]
          (d i) (e i) ∧
        area i = ((p :: ps)[i + 1].x - (p :: ps)[i].x) * ((p :: ps)[i].y + (p :: ps)[i + 1].y) / 2 +
          ((p :: ps)[i + 1].x - (p :: ps)[i].x) ^ 2 * (d i - e i) / 12) ∧
      ∀ r, ∃ gs, Curve.antiderivativeAfter bands (value r) = .ok gs ∧
        (ps ≠ [] → (piecewise gs).eval (value p.x) = value r) ∧
        ∀ j (hj : j < ps.length), (piecewise gs).eval (value ps[j].x) =
          value (r + ∑ i ∈ Finset.range (j + 1), area i) := by
  induction h with
  | last =>
    refine ⟨0, 0, 0, fun i hi => ?_, fun r => ⟨[], rfl, fun hps => absurd rfl hps, fun j hj => ?_⟩⟩
    · exact absurd hi (by simp)
    · exact absurd hj (Nat.not_lt_zero j)
  | @span p q s m t ps bands hx hm hq h ih =>
    obtain ⟨d, e, area, hspan, hgrow⟩ := ih
    have hmiddle := middle_lt_right hx
    refine ⟨startingWith s d, startingWith t e,
      startingWith ((q.x - p.x) * (p.y + q.y) / 2 + (q.x - p.x) ^ 2 * (s - t) / 12) area, ?_, ?_⟩
    · intro i hi
      cases i with
      | zero => exact ⟨⟨_, _, rfl, rfl, slope_half_anchor, slope_half_anchor⟩, rfl⟩
      | succ i =>
        obtain ⟨hslopes, harea⟩ := hspan i (Nat.lt_of_succ_lt_succ hi)
        exact ⟨hslopes.succ _ _, harea⟩
    · intro r
      obtain ⟨gs, hgs, -, hrest⟩ := hgrow (r + _)
      obtain ⟨f, g, hfg, hstart, hend⟩ := antiderivativeAfter_span hx rfl hgs (m := m)
      refine ⟨_, hfg, fun _ => ?_, fun j hj => ?_⟩
      · rw [Curve.eval_cons_of_le le_rfl (left_lt_middle hx).le, hstart]
      · rw [sum_startingWith, ← add_assoc]
        cases j with
        | zero =>
          rw [Finset.sum_range_zero, add_zero, List.getElem_cons_zero,
            Curve.eval_cons_of_lt hmiddle, Curve.eval_cons_of_le hmiddle.le le_rfl, hend]
        | succ j =>
          have hj' : j < ps.length := Nat.lt_of_succ_lt_succ hj
          have hlt := h.lt _ (List.getElem_mem hj')
          rw [List.getElem_cons_succ, Curve.eval_cons_of_lt (hmiddle.trans hlt),
            Curve.eval_cons_of_lt hlt, hrest j hj']

/-- The first band, too, is the antiderivative from zero on, raised by the constant. -/
theorem Through.antiderivative_ok (h : Through p s ps bands) {k : K}
    {gs : List (Band (Exact K) (Curve (Exact K)))}
    (hgs : Curve.antiderivativeAfter bands (value k) = .ok gs) :
    (piecewise bands).antiderivative (value k) = .ok (piecewise gs) := by
  cases h with
  | last =>
    cases hgs
    rfl
  | @span p q s m t ps bands hx =>
    obtain ⟨own, hown, -, hzero, -⟩ := exists_antiderivative_half (s := s) (m := m)
      (sub_ne_zero.2 (left_lt_middle hx).ne')
    obtain ⟨own', rest, hown', hrest, rfl⟩ := antiderivativeAfter_cons_ok_iff.1 hgs
    obtain rfl : own = own' := Except.ok.inj (hown.symm.trans hown')
    rw [hzero, Exact.value_sub, sub_zero] at hrest ⊢
    refine Curve.antiderivative_cons_ok ?_ hrest
    cases hown
    rw [half, Curve.antiderivative, Polynomial.antiderivative_eq_raise, Curve.raise]

/-- The antiderivative of a spline has its constant for the value at the first control point, and
from there to another control point it adds up the trapezoids under the secants, each corrected by
the difference of the slopes at the two ends of the span. -/
theorem antiderivative_spline_trapezoids (options : Options) (points : List (ControlPoint K))
    (hn : 2 ≤ points.length) (hx : (points.map (·.x)).Nodup) (k : K) :
    ∃ (sorted : List (ControlPoint K)) (bands : List (Band (Exact K) (Curve (Exact K))))
        (F : Curve (Exact K)), sorted.Perm points ∧ sorted.Pairwise (fun p q => p.x < q.x) ∧
      Curve.spline options (points.map (ControlPoint.map value)) = piecewise bands ∧
      (piecewise bands).antiderivative (value k) = .ok F ∧
      ∃ d e area : ℕ → K,
        (∀ i (hi : i + 1 < sorted.length),
          HasEndSlopes bands i sorted[i] sorted[i + 1] (d i) (e i) ∧
          area i = (sorted[i + 1].x - sorted[i].x) * (sorted[i].y + sorted[i + 1].y) / 2 +
            (sorted[i + 1].x - sorted[i].x) ^ 2 * (d i - e i) / 12) ∧
        ∀ j (hj : j < sorted.length),
          F.eval (value sorted[j].x) = value (k + ∑ i ∈ Finset.range j, area i) := by
  obtain ⟨p, ps, s, bands, hperm, hlt, hps, -, hspline, h⟩ :=
    exists_sorted_through options points hn hx
  obtain ⟨d, e, area, hspan, hgrow⟩ := h.antiderivativeAfter
  obtain ⟨gs, hgs, hstart, hrest⟩ := hgrow k
  refine ⟨p :: ps, bands, piecewise gs, hperm, hlt, hspline, h.antiderivative_ok hgs,
    d, e, area, hspan, fun j hj => ?_⟩
  cases j with
  | zero => rw [List.getElem_cons_zero, hstart hps, Finset.sum_range_zero, add_zero]
  | succ j => exact hrest j (Nat.lt_of_succ_lt_succ hj)

theorem antiderivative_spline_trapezoids_peak :
    2 ≤ peak.length ∧ (peak.map (·.x)).Nodup ∧
      ∃ (sorted : List (ControlPoint ℝ)) (bands : List (Band (Exact ℝ) (Curve (Exact ℝ))))
          (F : Curve (Exact ℝ)), sorted.Perm peak ∧ sorted.Pairwise (fun p q => p.x < q.x) ∧
        Curve.spline ⟨true, true⟩ (peak.map (ControlPoint.map value)) = piecewise bands ∧
        (piecewise bands).antiderivative (value 7) = .ok F ∧
        ∃ d e area : ℕ → ℝ,
          (∀ i (hi : i + 1 < sorted.length),
            HasEndSlopes bands i sorted[i] sorted[i + 1] (d i) (e i) ∧
            area i = (sorted[i + 1].x - sorted[i].x) * (sorted[i].y + sorted[i + 1].y) / 2 +
              (sorted[i + 1].x - sorted[i].x) ^ 2 * (d i - e i) / 12) ∧
          ∀ j (hj : j < sorted.length),
            F.eval (value sorted[j].x) = value (7 + ∑ i ∈ Finset.range j, area i) := by
  have hn : 2 ≤ peak.length := Nat.le_succ 2
  have hx : (peak.map (·.x)).Nodup := by norm_num [peak]
  exact ⟨hn, hx, antiderivative_spline_trapezoids ⟨true, true⟩ peak hn hx 7⟩

end Curves.Spline
