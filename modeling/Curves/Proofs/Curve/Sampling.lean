import Curves.Proofs.Curve.Integral
import Curves.Proofs.Curve.Domain
import Curves.Proofs.Curve.Shift
import Curves.Proofs.Exact.Real
import Curves.Proofs.Polynomial.Calculus

namespace Curves

universe u

variable {K : Type u} [Field K] [LinearOrder K] [Elementary K]

open Exact (value)

namespace Affine

variable {t : Affine (Exact K)}

theorem regular_raise (h : t.Regular) (v : Exact K) : (t.raise v).Regular :=
  ⟨h.xMul, h.yMul⟩

end Affine

namespace Curve

section Samples

variable {α : Type u} [Scalar α]

def reachedBands : List (Band α (Curve α)) → α → List (Band α (Curve α))
  | [], _ => []
  | b :: bands, x => if b.contains x then [b] else b :: reachedBands bands x

section Reached

variable {bands : List (Band α (Curve α))} {b : Band α (Curve α)} {x : α}

theorem reachedBands_cons_of_not (h : ¬b.contains x) :
    reachedBands (b :: bands) x = b :: reachedBands bands x :=
  if_neg h

theorem reachedBands_cons_of_contains (h : b.contains x) : reachedBands (b :: bands) x = [b] :=
  if_pos h

theorem mem_reachedBands_self : b ∈ reachedBands (b :: bands) x := by
  rw [reachedBands]
  split_ifs
  · exact List.mem_cons_self
  · exact List.mem_cons_self

theorem mem_of_mem_reachedBands (h : b ∈ reachedBands bands x) : b ∈ bands := by
  induction bands with
  | nil => exact h
  | cons c bands ih =>
    rw [reachedBands] at h
    split_ifs at h with hc
    · rw [List.mem_singleton.1 h]
      exact List.mem_cons_self
    · rcases List.mem_cons.1 h with rfl | h
      · exact List.mem_cons_self
      · exact List.mem_cons_of_mem c (ih h)

end Reached

/-- Integrating the curve up to a point reads a polynomial at another one: at the point itself,
and at the ends of the bands that the running value is carried over. -/
inductive Samples : Curve α → α → Polynomial α → α → Prop
  | polynomial {p x} : Samples (.polynomial p) x p x
  | affine {t f x p u} (h : Samples f (t.inner x) p u) : Samples (.affine t f) x p u
  | within {bands x b p u} (hb : b ∈ reachedBands bands x) (hx : b.contains x)
      (h : Samples b.body x p u) : Samples (.piecewise bands) x p u
  | start {bands x b p u} (hb : b ∈ (reachedBands bands x).tail) (h : Samples b.body b.min p u) :
      Samples (.piecewise bands) x p u
  | finish {bands x b p u} (hb : b ∈ reachedBands bands x) (hx : ¬b.contains x)
      (h : Samples b.body b.max p u) : Samples (.piecewise bands) x p u

end Samples

/-- Integrating up to the point never reads a polynomial without coefficients where its distance
from the origin is undefined. -/
def IsAnchored (f : Curve (Exact K)) (x : Exact K) : Prop :=
  ∀ p u, Samples f x p u → p.coefs = [] → (u - p.origin).IsValue

theorem Samples.isValue_sub {f : Curve (Exact K)} {p : Polynomial (Exact K)} {x u : Exact K}
    (hs : Samples f x p u) (h : Everywhere IsPlaced f) (hx : x.IsValue) :
    (u - p.origin).IsValue := by
  induction hs with
  | polynomial =>
    cases h with
    | polynomial h => exact hx.sub h
  | affine _ ih =>
    cases h with
    | affine h hf => exact ih hf (h.2.mul (h.1.add hx))
  | within hb _ _ ih =>
    cases h with
    | piecewise _ hf => exact ih (hf _ (mem_of_mem_reachedBands hb)) hx
  | start hb _ ih =>
    cases h with
    | piecewise h hf =>
      have hb' := mem_of_mem_reachedBands (List.mem_of_mem_tail hb)
      exact ih (hf _ hb') (h _ hb').1
  | finish hb _ _ ih =>
    cases h with
    | piecewise h hf =>
      have hb' := mem_of_mem_reachedBands hb
      exact ih (hf _ hb') (h _ hb').2

theorem Everywhere.isAnchored {f : Curve (Exact K)} {x : Exact K} (h : Everywhere IsPlaced f)
    (hx : x.IsValue) : f.IsAnchored x :=
  fun _ _ hs _ => hs.isValue_sub h hx

variable {f : Curve (Exact K)} {bands : List (Band (Exact K) (Curve (Exact K)))}
  {x : Exact K}

theorem Everywhere.isRegular_raise (h : RegularTree f) (v : Exact K) : RegularTree (f.raise v) := by
  apply h.raise_of
  intro f hf
  cases f with
  | polynomial => trivial
  | piecewise => trivial
  | affine t => exact Affine.regular_raise hf v
  | oscillator => exact hf.elim

structure IsAnchoredAfter (bands : List (Band (Exact K) (Curve (Exact K)))) (x : Exact K) :
    Prop where
  start : ∀ b ∈ reachedBands bands x, b.body.IsAnchored b.min
  finish : ∀ b ∈ reachedBands bands x, ¬b.contains x → b.body.IsAnchored b.max
  within : ∀ b ∈ reachedBands bands x, b.contains x → b.body.IsAnchored x

theorem IsAnchoredAfter.of_cons {b : Band (Exact K) (Curve (Exact K))}
    (h : IsAnchoredAfter (b :: bands) x) (hb : ¬b.contains x) : IsAnchoredAfter bands x := by
  obtain ⟨hstart, hfinish, hwithin⟩ := h
  rw [reachedBands_cons_of_not hb] at hstart hfinish hwithin
  constructor
  · exact fun c hc => hstart c (List.mem_cons_of_mem b hc)
  · exact fun c hc => hfinish c (List.mem_cons_of_mem b hc)
  · exact fun c hc => hwithin c (List.mem_cons_of_mem b hc)

theorem IsAnchored.after {b : Band (Exact K) (Curve (Exact K))}
    (h : (piecewise (b :: bands)).IsAnchored x) (hb : ¬b.contains x) :
    IsAnchoredAfter bands x := by
  have hreached : reachedBands (b :: bands) x = b :: reachedBands bands x :=
    reachedBands_cons_of_not hb
  constructor
  · intro c hc p u hs
    apply h p u (.start _ hs)
    rwa [hreached]
  · intro c hc hx p u hs
    apply h p u (.finish _ hx hs)
    rw [hreached]
    exact List.mem_cons_of_mem b hc
  · intro c hc hx p u hs
    apply h p u (.within _ hx hs)
    rw [hreached]
    exact List.mem_cons_of_mem b hc

/-- Whatever its constant, the antiderivative exists, is regular again, and has the integral for
its value at every anchored point. -/
def IntegratesPointwise (f : Curve (Exact K)) : Prop :=
  ∀ k, ∃ g, f.antiderivative k = .ok g ∧ RegularTree g ∧
    ∀ x, f.IsAnchored x → f.integralAt x k = .ok (g.eval x)

/-- The scan over the later bands follows their construction: both have reached the same value
before, and shift the band by the same amount. -/
theorem integralAfter_eq_eval (h : ∀ b ∈ bands, b.body.IntegratesPointwise) (reached : Exact K) :
    ∃ gs, antiderivativeAfter bands reached = .ok gs ∧ (∀ c ∈ gs, RegularTree c.body) ∧
      ∀ x, IsAnchoredAfter bands x →
        integralAfter bands x reached = .ok ((piecewise gs).eval x) := by
  induction bands generalizing reached with
  | nil => exact ⟨[], rfl, nofun, fun _ _ => rfl⟩
  | cons b bands ih =>
    obtain ⟨lo, hi, f⟩ := b
    obtain ⟨hf, hbands⟩ := List.forall_mem_cons.1 h
    obtain ⟨g, hg, hr, hint⟩ := hf 0
    -- the scan adds the shift to its values, the construction raises the curve by it
    let shift := reached - g.eval lo
    obtain ⟨gs, hgs, hrs, hscan⟩ := ih hbands ((g.raise shift).eval hi)
    refine ⟨⟨lo, hi, g.raise shift⟩ :: gs, ?_, ?_, ?_⟩
    · exact antiderivativeAfter_cons_ok_iff.2 ⟨g, gs, hg, hgs, rfl⟩
    · exact List.forall_mem_cons.2 ⟨hr.isRegular_raise shift, hrs⟩
    · intro x hx
      have hlo := hint lo (hx.start _ mem_reachedBands_self)
      rw [integralAfter, hlo, eval_cons, hr.isShiftable.eval_raise]
      change (if Band.contains ⟨lo, hi, f⟩ x then _ else _) =
        Except.ok (if Band.contains ⟨lo, hi, f⟩ x then _ else _)
      split_ifs with hc
      · rw [hint x (hx.within _ mem_reachedBands_self hc)]
        rfl
      · have hrest := hscan x (hx.of_cons hc)
        rw [hr.isShiftable.eval_raise] at hrest
        rw [hint hi (hx.finish _ mem_reachedBands_self hc)]
        exact hrest

theorem integralFrom_eq_eval (h : ∀ b ∈ bands, b.body.IntegratesPointwise) :
    (piecewise bands).IntegratesPointwise := by
  intro k
  cases bands with
  | nil => exact ⟨.piecewise [], rfl, .piecewise trivial nofun, fun _ _ => rfl⟩
  | cons b bands =>
    obtain ⟨lo, hi, f⟩ := b
    obtain ⟨hf, hbands⟩ := List.forall_mem_cons.1 h
    obtain ⟨g, hg, hr, hint⟩ := hf k
    obtain ⟨gs, hgs, hrs, hscan⟩ := integralAfter_eq_eval hbands (g.eval hi)
    refine ⟨_, antiderivative_cons_ok hg hgs, ?_, ?_⟩
    · exact .piecewise trivial (List.forall_mem_cons.2 ⟨hr, hrs⟩)
    · intro x hx
      rw [integralAt, integralFrom, eval_cons]
      change _ = Except.ok (if Band.contains ⟨lo, hi, f⟩ x then _ else _)
      split_ifs with hc
      · rw [hint x fun p u hs => hx p u (.within mem_reachedBands_self hc hs)]
        change Except.ok (g.eval x + 0) = _
        rw [Exact.zero_eq, Exact.add_zero]
      · rw [hint hi fun p u hs => hx p u (.finish mem_reachedBands_self hc hs)]
        change integralAfter bands x (g.eval hi + 0) = _
        rw [Exact.zero_eq, Exact.add_zero]
        exact hscan x (hx.after hc)

theorem Everywhere.integratesPointwise (h : RegularTree f) : f.IntegratesPointwise := by
  induction h with
  | @polynomial p _ =>
    intro k
    refine ⟨.polynomial (p.antiderivative k), rfl, .polynomial trivial, ?_⟩
    intro x hx
    rw [integralAt, Polynomial.integralAt_eq_eval (hx p x .polynomial), eval]
  | piecewise _ _ ih => exact integralFrom_eq_eval ih
  | @affine t f ht _ ih =>
    intro k
    obtain ⟨g, hg, hr, hint⟩ := ih k
    refine ⟨_, antiderivative_affine_ok hg, .affine (Affine.regular_antiderivative ht) hr, ?_⟩
    intro x hx
    rw [integralAt, hint _ fun p u hs => hx p u (.affine hs)]
    rfl
  | oscillator h => exact h.elim

/-- Integrating at a point and evaluating the antiderivative there give the same, at every point
where no polynomial without coefficients is read at an undefined distance from its origin. -/
theorem integralAt_eq_eval_antiderivative (h : RegularTree f) (k : Exact K) :
    ∃ g, f.antiderivative k = .ok g ∧ ∀ x, f.IsAnchored x → f.integralAt x k = .ok (g.eval x) := by
  obtain ⟨g, hg, -, hint⟩ := h.integratesPointwise k
  exact ⟨g, hg, hint⟩

/-- The curve on the first band stops half-way, so that the second band is continued from an
undefined value. -/
def stoppingBands : Curve (Exact ℝ) := .piecewise
  [⟨value (-1), value 1, .piecewise
      [⟨value (-1), value 0, .polynomial ⟨[value 1, value 1], value 0⟩⟩]⟩,
    ⟨value 1, value (1 + 1),
      .affine ⟨value 0, value (-1), value 1, value (1 + 1)⟩ (.polynomial ⟨[], value 0⟩)⟩]

theorem integralAt_eq_eval_antiderivative_stoppingBands :
    RegularTree stoppingBands ∧ stoppingBands.IsAnchored (value (1 + 1)) ∧
      ∃ g, stoppingBands.antiderivative (value 7) = .ok g ∧
        stoppingBands.integralAt (value (1 + 1)) (value 7) = .ok (g.eval (value (1 + 1))) := by
  have hv (a : ℝ) : (value a).IsValue := Exact.isValue_value a
  have hreg : RegularTree stoppingBands := by
    have hp (p : Polynomial (Exact ℝ)) : RegularTree (.polynomial p) := .polynomial trivial
    apply Everywhere.piecewise trivial
    simp only [List.forall_mem_cons]
    refine ⟨.piecewise trivial ?_, .affine ⟨⟨-1, rfl, by norm_num⟩, 1 + 1, rfl, by norm_num⟩ (hp _),
      nofun⟩
    exact List.forall_mem_singleton.2 (hp _)
  have hplaced : Everywhere IsPlaced stoppingBands := by
    have hp (cs : List (Exact ℝ)) (o : ℝ) : Everywhere IsPlaced (.polynomial ⟨cs, value o⟩) :=
      .polynomial (hv o)
    apply Everywhere.piecewise
    · simp only [IsPlaced, List.forall_mem_cons]
      exact ⟨⟨hv _, hv _⟩, ⟨hv _, hv _⟩, nofun⟩
    · simp only [List.forall_mem_cons]
      refine ⟨.piecewise ?_ ?_, .affine ⟨hv _, hv _⟩ (hp _ _), nofun⟩
      · exact List.forall_mem_singleton.2 ⟨hv _, hv _⟩
      · exact List.forall_mem_singleton.2 (hp _ _)
  have hx := hplaced.isAnchored (hv (1 + 1))
  obtain ⟨g, hg, hint⟩ := integralAt_eq_eval_antiderivative hreg (value 7)
  exact ⟨hreg, hx, g, hg, hint _ hx⟩

/-- Read at an undefined point, a polynomial without coefficients has an undefined integral,
though its antiderivative is constant. -/
theorem integralAt_ne_eval_antiderivative_undefined :
    RegularTree (.polynomial ⟨[], value (0 : ℝ)⟩) ∧
      ∃ g, (polynomial ⟨[], value (0 : ℝ)⟩).antiderivative (value 1) = .ok g ∧
        (polynomial ⟨[], value (0 : ℝ)⟩).integralAt .undefined (value 1) = .ok .undefined ∧
        g.eval .undefined = value 1 :=
  ⟨.polynomial trivial, _, rfl, rfl, rfl⟩

end Curve
end Curves
