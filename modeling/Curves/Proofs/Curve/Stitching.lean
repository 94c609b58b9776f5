import Curves.Proofs.Curve.RoundTrip
import Curves.Proofs.Curve.Shift

namespace Curves

universe u

variable {K : Type u} [Field K] [LinearOrder K] [Elementary K]

open Exact (value)

namespace Affine

variable {t : Affine (Exact K)}

theorem Regular.derivative_raise_apply (h : t.Regular) (v y : Exact K) :
    (t.antiderivative.raise v).derivative.apply y = t.apply y + t.xMul * v := by
  rw [derivative_apply_raise (regular_antiderivative h).yMul_ne_zero,
    h.derivative_antiderivative]
  rfl

end Affine

namespace Curve

/-- A polynomial, or a regular change of axes of one, with numbers throughout. -/
inductive IsPiece : Curve (Exact K) → Prop
  | polynomial {p} (hp : p.IsDefined) : IsPiece (.polynomial p)
  | affine {t p} (ht : t.Regular) (hx : t.xAdd.IsValue) (hy : t.yAdd.IsValue) (hp : p.IsDefined) :
      IsPiece (.affine t (.polynomial p))

/-- What a shift of the antiderivative of a piece is multiplied by in the derivative. -/
def shiftFactor {α : Type u} [Scalar α] : Curve α → α
  | .affine t _ => t.xMul
  | .polynomial _ | .piecewise _ | .oscillator _ => 0

variable {f g : Curve (Exact K)}

theorem isTotal_polynomial {p : Polynomial (Exact K)} (hp : p.IsDefined) :
    (polynomial p).IsTotal :=
  hp.isValue_eval

theorem isTotal_affine {t : Affine (Exact K)} (hxAdd : t.xAdd.IsValue) (hxMul : t.xMul.IsValue)
    (hyAdd : t.yAdd.IsValue) (hyMul : t.yMul.IsValue) (hf : f.IsTotal) :
    (affine t f).IsTotal := by
  intro x
  obtain ⟨u, hu⟩ := hxMul.mul (hxAdd.add (Exact.isValue_value x))
  rw [eval, Affine.inner, hu]
  exact hyMul.mul (hyAdd.add (hf u))

theorem IsPiece.isTotal (h : f.IsPiece) : f.IsTotal := by
  cases h with
  | polynomial hp => exact isTotal_polynomial hp
  | affine ht hx hy hp =>
    obtain ⟨m, hm, -⟩ := ht.xMul
    obtain ⟨n, hn, -⟩ := ht.yMul
    exact isTotal_affine hx ⟨m, hm⟩ hy ⟨n, hn⟩ (isTotal_polynomial hp)

theorem IsPiece.isValue_shiftFactor (h : f.IsPiece) : f.shiftFactor.IsValue := by
  cases h with
  | polynomial => exact ⟨0, Exact.zero_eq⟩
  | affine ht =>
    obtain ⟨m, hm, -⟩ := ht.xMul
    exact ⟨m, hm⟩

/-- What stitching has to know of the antiderivative `g` of a piece `f`. -/
structure Stitchable (g f : Curve (Exact K)) : Prop where
  isPrimitive : g.IsPrimitive f
  isTotal : g.IsTotal
  isTotal_raise : ∀ v, (g.raise (value v)).IsTotal
  derivative_raise : ∀ v x,
    (g.raise (value v)).derivative.eval x = f.eval x + f.shiftFactor * value v

theorem Stitchable.isTotal_derivative_raise (hs : g.Stitchable f) (hf : f.IsPiece) (v : K) :
    (g.raise (value v)).derivative.IsTotal := by
  intro x
  rw [hs.derivative_raise]
  exact (hf.isTotal x).add (hf.isValue_shiftFactor.mul (Exact.isValue_value v))

/-- Bands with pieces on them that follow one another from `lo` on. -/
inductive Contiguous : K → List (Band (Exact K) (Curve (Exact K))) → Prop
  | nil {lo} : Contiguous lo []
  | cons {lo hi f bands} (h : lo < hi) (hf : f.IsPiece) (hb : Contiguous hi bands) :
      Contiguous lo (⟨value lo, value hi, f⟩ :: bands)

variable {bands : List (Band (Exact K) (Curve (Exact K)))} {lo : K}

theorem Contiguous.isTotal (h : Contiguous lo bands) : ∀ b ∈ bands, b.body.IsTotal := by
  induction h with
  | nil => exact nofun
  | cons _ hf _ ih => exact List.forall_mem_cons.2 ⟨hf.isTotal, ih⟩

omit [Elementary K] in
theorem Contiguous.min_ge (h : Contiguous lo bands) :
    ∀ b ∈ bands, ∃ m, b.min = value m ∧ lo ≤ m := by
  induction h with
  | nil => exact nofun
  | @cons lo hi f bands h _ _ ih =>
    refine List.forall_mem_cons.2 ⟨⟨lo, rfl, le_rfl⟩, ?_⟩
    intro b hb
    obtain ⟨m, hm, hle⟩ := ih b hb
    exact ⟨m, hm, h.le.trans hle⟩

theorem Contiguous.covers (h : Contiguous lo bands) {x : Exact K} (hx : Bands.Covers bands x) :
    ∃ a, x = value a ∧ lo ≤ a := by
  obtain ⟨b, hb, hc⟩ := hx
  obtain ⟨a, rfl⟩ := contains_isValue hc
  obtain ⟨m, hm, hle⟩ := h.min_ge b hb
  simp only [Band.contains, hm, Exact.value_le, Bool.and_eq_true, decide_eq_true_eq] at hc
  exact ⟨a, rfl, hle.trans hc.1⟩

/-- Where the band holds a change of axes, its own antiderivative has the value `y` at the lower
end. -/
def Meets (b : Band (Exact K) (Curve (Exact K))) (y : Exact K) : Prop :=
  ∀ t p, b.body = .affine t (.polynomial p) →
    ∃ own, b.body.antiderivative 0 = .ok own ∧ own.eval b.min = y

theorem Stitchable.eq_iff_meets (hs : g.Stitchable f) (hf : f.IsPiece)
    (hg : f.antiderivative 0 = .ok g) {lo s : K} (hl : g.eval (value lo) = value s) (hi r x : K) :
    (g.raise (value (r - s))).derivative.eval (value x) = f.eval (value x) ↔
      Meets ⟨value lo, value hi, f⟩ (value r) := by
  rw [hs.derivative_raise]
  cases hf with
  | polynomial hp =>
    obtain ⟨y, hy⟩ := hp.isValue_eval x
    refine ⟨fun _ => nofun, fun _ => ?_⟩
    rw [eval, hy, shiftFactor, Exact.zero_eq, Exact.value_mul, zero_mul, Exact.value_add, add_zero]
  | @affine t p ht hx hy hp =>
    obtain ⟨y, hy⟩ := (IsPiece.affine ht hx hy hp).isTotal x
    obtain ⟨m, hm, hm0⟩ := ht.xMul
    rw [hy, shiftFactor, hm, Exact.value_mul, Exact.value_add, Exact.value.injEq, add_eq_left,
      mul_eq_zero, or_iff_right hm0, sub_eq_zero]
    constructor
    · rintro rfl t' p' -
      exact ⟨g, hg, hl⟩
    · intro h
      obtain ⟨own, ho, hr⟩ := h t p rfl
      rw [hg] at ho
      cases ho
      rw [hl] at hr
      exact (Exact.value.inj hr).symm

variable [IsStrictOrderedRing K]

theorem stitchable_polynomial {p : Polynomial (Exact K)} (hp : p.IsDefined) (k : K) :
    (polynomial (p.antiderivative (value k))).Stitchable (polynomial p) where
  isPrimitive := p.eval_derivative_antiderivative (value k)
  isTotal := isTotal_polynomial (hp.antiderivative k)
  isTotal_raise v x := by
    rw [raise, eval, Polynomial.eval_raise]
    exact ((hp.antiderivative k).isValue_eval x).add (Exact.isValue_value v)
  derivative_raise v x := by
    rw [raise, derivative, Polynomial.derivative_raise, eval,
      Polynomial.eval_derivative_antiderivative, eval, shiftFactor, Exact.zero_eq,
      Exact.value_mul, zero_mul]
    cases p.eval x <;> simp

theorem IsPiece.antiderivative (h : f.IsPiece) (k : K) :
    ∃ g, f.antiderivative (value k) = .ok g ∧ g.Stitchable f := by
  cases h with
  | @polynomial p hp => exact ⟨_, rfl, stitchable_polynomial hp k⟩
  | @affine t p ht hx hy hp =>
    have hg := stitchable_polynomial hp k
    obtain ⟨m, hm, hm0⟩ := ht.xMul
    obtain ⟨n, hn, hn0⟩ := ht.yMul
    have hq : t.antiderivative.yMul = value (n / m) := by
      rw [Affine.antiderivative, hm, hn, Exact.value_div n hm0]
    refine ⟨.affine t.antiderivative (.polynomial (p.antiderivative (value k))), rfl,
      hg.isPrimitive.affine ht, ?_, ?_, ?_⟩
    · exact isTotal_affine hx ⟨m, hm⟩ hy ⟨_, hq⟩ hg.isTotal
    · intro v
      have hv : (value v / value (n / m)).IsValue :=
        (Exact.isValue_value v).div (div_ne_zero hn0 hm0)
      rw [← hq] at hv
      exact isTotal_affine hx ⟨m, hm⟩ (hy.add hv) ⟨_, hq⟩ hg.isTotal
    · intro v x
      rw [raise, derivative, eval, eval, hg.isPrimitive]
      exact ht.derivative_raise_apply (value v) _

theorem antiderivativeAfter_stitched (h : Contiguous lo bands) {l r : K} {e : Curve (Exact K)}
    (hl : l < lo) (hr : e.eval (value lo) = value r) :
    ∃ gs, antiderivativeAfter bands (value r) = .ok gs ∧ (∀ c ∈ gs, c.body.derivative.IsTotal) ∧
      ((∀ x, lo < x →
          (piecewise gs).derivative.eval (value x) = (piecewise bands).eval (value x)) ↔
        ∀ b ∈ bands, Meets b ((piecewise (⟨value l, value lo, e⟩ :: gs)).eval b.min)) := by
  induction h generalizing l r e with
  | nil => exact ⟨[], rfl, nofun, fun _ => nofun, fun _ _ _ => rfl⟩
  | @cons lo hi f bands h hf hb ih =>
    obtain ⟨g, hg, hs⟩ := hf.antiderivative 0
    rw [← Exact.zero_eq] at hg
    obtain ⟨s, hs0⟩ := hs.isTotal lo
    obtain ⟨r', hr'⟩ := hs.isTotal_raise (r - s) hi
    obtain ⟨gs, hgs, ht, hiff⟩ := ih h hr'
    have hmeets := hs.eq_iff_meets hf hg hs0 hi r
    refine ⟨⟨value lo, value hi, g.raise (value (r - s))⟩ :: gs, ?_, ?_, ?_⟩
    · refine antiderivativeAfter_cons_ok_iff.2 ⟨g, gs, hg, ?_, ?_⟩
      · rw [hs0, Exact.value_sub, hr', hgs]
      · rw [hs0, Exact.value_sub]
    · exact List.forall_mem_cons.2 ⟨hs.isTotal_derivative_raise hf _, ht⟩
    · rw [List.forall_mem_cons, eval_cons_of_le hl.le le_rfl, hr]
      have hrest (b) (hbm : b ∈ bands) :
          (piecewise (⟨value l, value lo, e⟩ ::
            ⟨value lo, value hi, g.raise (value (r - s))⟩ :: gs)).eval b.min =
          (piecewise (⟨value lo, value hi, g.raise (value (r - s))⟩ :: gs)).eval b.min := by
        obtain ⟨m, hm, hle⟩ := hb.min_ge b hbm
        rw [hm, eval_cons_of_lt (h.trans_le hle)]
      rw [derivative, derivativeBands, eval_cons_eq_iff h]
      apply and_congr
      · exact ⟨fun heq => (hmeets hi).1 (heq hi h le_rfl), fun hm x _ _ => (hmeets x).2 hm⟩
      · exact hiff.trans (forall₂_congr fun b hbm => by rw [hrest b hbm])

/-- Differentiating the antiderivative of contiguous pieces gives a curve with the same domain. It
is the curve itself exactly when every change of axes after the first band happens to meet the
antiderivative without being shifted. -/
theorem antiderivative_derivative_iff_meets (h : Contiguous lo bands) (k : K) :
    ∃ F, (piecewise bands).antiderivative (value k) = .ok F ∧
      (∀ x, F.derivative.eval x = .undefined ↔ (piecewise bands).eval x = .undefined) ∧
      ((∀ x, F.derivative.eval x = (piecewise bands).eval x) ↔
        ∀ b ∈ bands.tail, Meets b (F.eval b.min)) := by
  cases h with
  | nil => exact ⟨.piecewise [], rfl, fun _ => .rfl, fun _ => nofun, fun _ _ => rfl⟩
  | @cons _ hi f bands h hf hb =>
    obtain ⟨g, hg, hs⟩ := hf.antiderivative k
    obtain ⟨r, hr⟩ := hs.isTotal hi
    obtain ⟨gs, hgs, ht, hiff⟩ := antiderivativeAfter_stitched hb h hr
    have htotal : ∀ c ∈ derivativeBands (⟨value lo, value hi, g⟩ :: gs), c.body.IsTotal := by
      rw [derivativeBands_eq_map, List.forall_mem_map, List.forall_mem_cons]
      refine ⟨fun x => ?_, ht⟩
      rw [hs.isPrimitive]
      exact hf.isTotal x
    have hranges : Bands.ranges (derivativeBands (⟨value lo, value hi, g⟩ :: gs)) =
        Bands.ranges (⟨value lo, value hi, f⟩ :: bands) := by
      rw [ranges_derivativeBands]
      exact congrArg (_ :: ·) (ranges_antiderivativeAfter hgs)
    have hc : Contiguous lo (⟨value lo, value hi, f⟩ :: bands) := .cons h hf hb
    have hdomain := eval_eq_undefined_congr hranges htotal hc.isTotal
    rw [← hr] at hgs
    refine ⟨_, antiderivative_cons_ok hg hgs, hdomain, ?_⟩
    · rw [List.tail_cons, ← hiff]
      constructor
      · intro heq x hx
        have hx' := heq (value x)
        rwa [derivative, derivativeBands, eval_cons_of_lt hx, eval_cons_of_lt hx] at hx'
      · intro heq x
        by_cases hx : (piecewise (⟨value lo, value hi, f⟩ :: bands)).eval x = .undefined
        · rw [hx]
          exact (hdomain x).2 hx
        · rw [← Exact.not_isValue_iff, not_not, isValue_eval_iff hc.isTotal] at hx
          obtain ⟨a, rfl, hlo⟩ := hc.covers hx
          rw [derivative, derivativeBands]
          by_cases hhi : a ≤ hi
          · rw [eval_cons_of_le hlo hhi, eval_cons_of_le hlo hhi, hs.isPrimitive]
          · rw [eval_cons_of_lt (not_le.1 hhi), eval_cons_of_lt (not_le.1 hhi)]
            exact heq a (not_le.1 hhi)

/-- The constant one on two bands, on the second inside a change of axes that changes nothing. -/
def constantBands : List (Band (Exact ℝ) (Curve (Exact ℝ))) :=
  [⟨value (-1), value 0, .polynomial ⟨[value 1], value 0⟩⟩,
    ⟨value 0, value 1,
      .affine ⟨value 0, value 1, value 0, value 1⟩ (.polynomial ⟨[value 1], value 0⟩)⟩]

theorem contiguous_constantBands : Contiguous (-1) constantBands := by
  have hp : Polynomial.IsDefined ⟨[value 1], value (0 : ℝ)⟩ :=
    ⟨List.forall_mem_singleton.2 (Exact.isValue_value 1), Exact.isValue_value 0⟩
  have ht : Affine.Regular ⟨value 0, value 1, value 0, value (1 : ℝ)⟩ :=
    ⟨⟨1, rfl, one_ne_zero⟩, ⟨1, rfl, one_ne_zero⟩⟩
  have hsecond := Contiguous.cons one_pos (.affine ht ⟨0, rfl⟩ ⟨0, rfl⟩ hp) .nil
  exact .cons neg_one_lt_zero (.polynomial hp) hsecond

theorem antiderivative_derivative_iff_meets_constantBands :
    Contiguous (-1) constantBands ∧
      ∃ F, (piecewise constantBands).antiderivative (value 5) = .ok F ∧
        (∀ x, F.derivative.eval x = .undefined ↔ (piecewise constantBands).eval x = .undefined) ∧
        ((∀ x, F.derivative.eval x = (piecewise constantBands).eval x) ↔
          ∀ b ∈ constantBands.tail, Meets b (F.eval b.min)) :=
  ⟨contiguous_constantBands, antiderivative_derivative_iff_meets contiguous_constantBands 5⟩

/-- The antiderivative reaches five at the end of the first band, where the second one alone would
begin at zero, and the derivative has the five on top of the one. -/
theorem antiderivative_derivative_shifted :
    Contiguous (-1) constantBands ∧
      ∃ F, (piecewise constantBands).antiderivative (value 5) = .ok F ∧
        F.derivative.eval (value (1 / 2)) = value 6 ∧
        (piecewise constantBands).eval (value (1 / 2)) = value 1 := by
  refine ⟨contiguous_constantBands, .piecewise
    [⟨value (-1), value 0, .polynomial ⟨[value 5, value 1], value 0⟩⟩,
      ⟨value 0, value 1,
        .affine ⟨value 0, value 1, value 5, value 1⟩ (.polynomial ⟨[value 0, value 1], value 0⟩)⟩],
    ?_, ?_, ?_⟩
  · simp [antiderivative, constantBands, antiderivativeFrom, antiderivativeAfter,
      Polynomial.antiderivative, Polynomial.antiderivativeCoefs, raise, Affine.raise,
      Affine.antiderivative, eval, Polynomial.eval, Polynomial.horner, Affine.apply, Affine.inner,
      bind, Except.bind, pure, Except.pure]
  · rw [derivative, derivativeBands, eval_cons_of_lt (by norm_num), derivativeBands,
      eval_cons_of_le (by norm_num) (by norm_num)]
    norm_num [derivative, eval, Affine.derivative, Affine.inner, Affine.apply,
      Polynomial.derivative, Polynomial.derivativeCoefs, Polynomial.eval, Polynomial.horner]
  · rw [constantBands, eval_cons_of_lt (by norm_num), eval_cons_of_le (by norm_num) (by norm_num)]
    norm_num [eval, Affine.inner, Affine.apply, Polynomial.eval, Polynomial.horner]

end Curve
end Curves
