import Mathlib
import Curves.Polynomial.Brent
import Curves.Proofs.Exact

namespace Curves

universe u
open Exact (value)

namespace Brent

variable {K : Type u} [Field K] [LinearOrder K] [IsStrictOrderedRing K] [Elementary K]

theorem precision_value {s : State (Exact K)} {b : K} (h : s.b = value b) :
    s.precision = value (2 * (1 / 4503599627370496) * |b| + 1 / 2 * (1 / 100000000000000)) := by
  have heps : (epsilon : Exact K) = value (1 / 4503599627370496) := by
    rw [epsilon, Exact.one_eq, Exact.ofNat_eq, Exact.value_div _ (by norm_num)]
  have htol : (tolerance : Exact K) = value (1 / 100000000000000) := by
    rw [tolerance, Exact.one_eq, Exact.ofNat_eq, Exact.value_div _ (by norm_num)]
  rw [State.precision, h, heps, htol, Exact.one_eq, Exact.ofNat_eq, Exact.value_div _ (by norm_num)]
  rfl

theorem half_value {s : State (Exact K)} {b c : K} (hb : s.b = value b) (hc : s.c = value c) :
    s.half = value (1 / 2 * (c - b)) := by
  rw [State.half, hb, hc, Exact.one_eq, Exact.ofNat_eq, Exact.value_div _ two_ne_zero]
  rfl

/-- With opposite values at the ends the first step is a bisection, and ends at a root halfway. -/
theorem root_of_middle {f : Exact K → Exact K} {r w v : K} (hlo : f (value (r - w)) = value (-v))
    (hhi : f (value (r + w)) = value v) (hr : f (value r) = value 0) (hv : 0 < v)
    (hw : 2 * (1 / 4503599627370496) * |r + w| + 1 / 2 * (1 / 100000000000000) < w) :
    root f (value (r - w)) (value (r + w)) = some (value r) := by
  have hw0 : 0 < w := by
    refine lt_of_le_of_lt ?_ hw
    positivity
  obtain ⟨s, hs⟩ : ∃ s : State (Exact K), s = ⟨value (r - w), value (r + w), value (r - w),
      value (r + w - (r - w)), value (r + w - (r - w)), value (-v), value v, value (-v)⟩ := ⟨_, rfl⟩
  have hstart : (State.mk (value (r - w)) (value (r + w)) (value (r + w)) Scalar.undefined
      Scalar.undefined (value (-v)) (value v) (value v)).bracket.orient = s := by
    simp [hs, State.bracket, sameSide, State.orient, hv, Scalar.magnitude, Exact.map]
  have hprec : s.precision = _ := precision_value (b := r + w) (by rw [hs])
  have hhalf : s.half = value (-w) := by
    rw [half_value (b := r + w) (c := r - w) (by rw [hs]) (by rw [hs])]
    congr 1
    ring
  have habs : Scalar.magnitude (value (-w) : Exact K) = value w := by
    change value |-w| = value w
    rw [abs_neg, abs_of_pos hw0]
  have hopen : ¬s.converged := by
    have hfar : ¬Scalar.magnitude s.half ≤ s.precision := by
      rw [hhalf, habs, hprec, Exact.value_le]
      exact hw.not_ge
    have hfb : (s.fb == 0) = false := by
      simp [hs, hv.ne']
    rw [State.converged, decide_eq_false hfar, hfb]
    exact Bool.false_ne_true
  have hbisect : s.step = (value (-w), value (-w)) := by
    rw [State.step, hhalf, if_neg]
    simp [hs, Scalar.magnitude, Exact.map]
  have hnext : s.advance f = ⟨value (r + w), value r, value (r - w), value (-w), value (-w),
      value v, value 0, value (-v)⟩ := by
    have hlarge : s.precision < Scalar.magnitude (value (-w)) := by
      rw [habs, hprec, Exact.value_lt]
      exact hw
    rw [State.advance, hbisect]
    dsimp only
    rw [if_pos hlarge]
    simp [hs, hr]
  have hkeep : (State.mk (value (r + w)) (value r) (value (r - w)) (value (-w)) (value (-w))
      (value v) (value 0) (value (-v)) : State (Exact K)).bracket.orient =
      ⟨value (r + w), value r, value (r - w), value (-w), value (-w), value v, value 0,
        value (-v)⟩ := by
    simp [State.bracket, sameSide, State.orient, Scalar.magnitude, Exact.map, (abs_nonneg v).not_gt]
  have hfound : (State.mk (value (r + w)) (value r) (value (r - w)) (value (-w)) (value (-w))
      (value v) (value 0) (value (-v)) : State (Exact K)).converged = true := by
    simp [State.converged]
  rw [root, hlo, hhi, if_neg (by simp [(mul_pos hv hv).le]), maxRounds, run, hstart, if_neg hopen,
    hnext, run, hkeep, if_pos hfound]

end Brent

end Curves
