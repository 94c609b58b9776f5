import Mathlib
import Curves.Curve.Level
import Curves.Proofs.Curve.Shape

namespace Curves

universe u

namespace Affine

variable {K : Type u} [Field K]

open Exact (value)

/-- A change of axes between numbers that can be undone. -/
structure Invertible (t : Affine (Exact K)) : Prop extends Regular t where
  xAdd : t.xAdd.IsValue
  yAdd : t.yAdd.IsValue

theorem Invertible.exists_eq {t : Affine (Exact K)} (h : t.Invertible) :
    ∃ a m b n : K, m ≠ 0 ∧ n ≠ 0 ∧ t = ⟨value a, value m, value b, value n⟩ := by
  obtain ⟨a, ha⟩ := h.xAdd
  obtain ⟨m, hm, hm0⟩ := h.xMul
  obtain ⟨b, hb⟩ := h.yAdd
  obtain ⟨n, hn, hn0⟩ := h.yMul
  refine ⟨a, m, b, n, hm0, hn0, ?_⟩
  rw [← ha, ← hm, ← hb, ← hn]

variable [LinearOrder K] [Elementary K] {t : Affine (Exact K)}

theorem Invertible.exists_innerValue (h : t.Invertible) (v : K) :
    ∃ w, t.innerValue (value v) = value w ∧ ∀ y, t.apply y = value v ↔ y = value w := by
  obtain ⟨a, m, b, n, hm, hn, rfl⟩ := h.exists_eq
  refine ⟨v / n - b, ?_, ?_⟩
  · rw [innerValue, Exact.value_div v hn, Exact.value_sub]
  · intro y
    cases y with
    | undefined => exact ⟨nofun, nofun⟩
    | value y =>
      rw [apply, Exact.value_add, Exact.value_mul, Exact.value.injEq, Exact.value.injEq,
        eq_sub_iff_add_eq, eq_div_iff hn, add_comm b y, mul_comm]

omit [Elementary K] in
theorem mem_uIcc_outer_iff [IsStrictOrderedRing K] (a : K) {m : K} (hm : m ≠ 0) (x u w : K) :
    x ∈ Set.uIcc (u / m - a) (w / m - a) ↔ m * (a + x) ∈ Set.uIcc u w := by
  have hmul := Set.ext_iff.1 (Set.preimage_const_mul_uIcc hm u w) (a + x)
  have hadd := Set.ext_iff.1 (Set.preimage_const_add_uIcc a (u / m) (w / m)) x
  rw [Set.mem_preimage] at hmul hadd
  exact hadd.symm.trans hmul.symm

/-- Between numbers the horizontal change is a bijection that keeps what lies between. -/
theorem Invertible.exists_equiv [IsStrictOrderedRing K] (h : t.Invertible) :
    ∃ e : K ≃ K, (∀ x, t.inner (value x) = value (e x)) ∧
      (∀ u, t.outer (value u) = value (e.symm u)) ∧
      ∀ x u w, x ∈ Set.uIcc (e.symm u) (e.symm w) ↔ e x ∈ Set.uIcc u w := by
  obtain ⟨a, m, b, n, hm, hn, rfl⟩ := h.exists_eq
  refine ⟨⟨fun x => m * (a + x), fun u => u / m - a, ?_, ?_⟩, fun x => rfl, ?_, ?_⟩
  · intro x
    dsimp only
    rw [mul_div_cancel_left₀ _ hm, add_sub_cancel_left]
  · intro u
    dsimp only
    rw [add_sub_cancel, mul_div_cancel₀ u hm]
  · intro u
    rw [outer, Exact.value_div u hm, Exact.value_sub]
    rfl
  · exact fun x u w => mem_uIcc_outer_iff a hm x u w

/-- Seen from inside the change of axes, the point `x` is `e x`, and the value `v` is `w`. -/
structure Translates (t : Affine (Exact K)) (e : K ≃ K) (v w : K) : Prop where
  inner : ∀ x, t.inner (value x) = value (e x)
  outer : ∀ u, t.outer (value u) = value (e.symm u)
  between : ∀ x a b, x ∈ Set.uIcc (e.symm a) (e.symm b) ↔ e x ∈ Set.uIcc a b
  innerValue : t.innerValue (value v) = value w
  apply_iff : ∀ y, t.apply y = value v ↔ y = value w

theorem Invertible.exists_translates [IsStrictOrderedRing K] (h : t.Invertible) (v : K) :
    ∃ e w, t.Translates e v w := by
  obtain ⟨e, hinner, houter, hbetween⟩ := h.exists_equiv
  obtain ⟨w, hw, happly⟩ := h.exists_innerValue v
  exact ⟨e, w, hinner, houter, hbetween, hw, happly⟩

theorem Translates.eval_iff {e : K ≃ K} {v w : K} (h : t.Translates e v w) (f : Curve (Exact K))
    (x : K) : (Curve.affine t f).eval (value x) = value v ↔ f.eval (value (e x)) = value w := by
  rw [Curve.eval, h.inner, h.apply_iff]

end Affine

namespace Curve

section Scalars

variable {α : Type u} [Scalar α] {solver : Polynomial.BracketSolver α} {lo hi v : α} {f : Curve α}
  {bands : List (Band α (Curve α))}

theorem solveBands_cons_ok {found : Option (List α)} {rest : List α}
    (hf : f.solveWith solver v = .ok found) (hrest : solveBandsWith solver bands v = .ok rest) :
    solveBandsWith solver (⟨lo, hi, f⟩ :: bands) v =
      .ok (bandSolutions ⟨lo, hi, f⟩ v found ++ rest) := by
  rw [solveBandsWith, hf]
  change (solveBandsWith solver bands v >>= _) = _
  rw [hrest]
  rfl

theorem exists_solveBands (h : ∀ b ∈ bands, ∃ found, b.body.solveWith solver v = .ok found) :
    ∃ rs, solveBandsWith solver bands v = .ok rs ∧ ∀ r, r ∈ rs ↔
      ∃ b ∈ bands, ∃ found,
        b.body.solveWith solver v = .ok found ∧ r ∈ bandSolutions b v found := by
  induction bands with
  | nil => exact ⟨[], rfl, fun r => ⟨nofun, nofun⟩⟩
  | cons b bands ih =>
    obtain ⟨⟨found, hfound⟩, hbands⟩ := List.forall_mem_cons.1 h
    obtain ⟨rest, hrest, hmem⟩ := ih hbands
    refine ⟨_, solveBands_cons_ok hfound hrest, ?_⟩
    intro r
    rw [List.mem_append, hmem, List.exists_mem_cons_iff, hfound]
    simp only [Except.ok.injEq, exists_eq_left']

theorem solve_piecewise_ok {rs : List α} (h : solveBandsWith solver bands v = .ok rs) :
    (piecewise bands).solveWith solver v = .ok (if rs.isEmpty then none else some rs) := by
  rw [solveWith, h]
  rfl

theorem solve_affine_ok {t : Affine α} {found : Option (List α)}
    (h : f.solveWith solver (t.innerValue v) = .ok found) :
    (affine t f).solveWith solver v =
      .ok (found.map fun us => (us.map t.outer).mergeSort Scalar.totalLE) := by
  rw [solveWith, h]
  rfl

end Scalars

/-- Without a list a band gives its two ends, where its curve takes the value. -/
theorem bandSolutions_none {K : Type u} [Field K] [LinearOrder K] [Elementary K] {lo hi v : K}
    {f : Curve (Exact K)} (h : lo < hi) (hlo : f.eval (Exact.value lo) = Exact.value v)
    (hhi : f.eval (Exact.value hi) = Exact.value v) :
    bandSolutions ⟨Exact.value lo, Exact.value hi, f⟩ (Exact.value v) none =
      [Exact.value lo, Exact.value hi] := by
  rw [bandSolutions, hlo, hhi]
  simp [h.ne']

end Curve
end Curves
