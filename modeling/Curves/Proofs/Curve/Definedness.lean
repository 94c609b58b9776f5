import Curves.Proofs.Curve.Sampling

namespace Curves

universe u

variable {K : Type u} [Field K] [LinearOrder K] [Elementary K]

open Exact (value)

namespace Polynomial

theorem isValue_horner_iff {cs : List (Exact K)} {t : K} :
    (horner cs (value t)).IsValue ↔ ∀ c ∈ cs, c.IsValue := by
  induction cs with
  | nil => exact ⟨fun _ => List.forall_mem_nil _, fun _ => ⟨0, Exact.zero_eq⟩⟩
  | cons c cs ih =>
    rw [horner_cons_value, Exact.mulAdd_eq, Exact.mul_comm, Exact.isValue_add_iff,
      Exact.isValue_value_mul_iff, ih, and_comm, List.forall_mem_cons]

variable [IsStrictOrderedRing K]

theorem forall_isValue_div_iff {cs : List (Exact K)} :
    (∀ d ∈ cs.zipIdx.map fun (c, i) => c / Scalar.ofNat (i + 1), d.IsValue) ↔
      ∀ c ∈ cs, c.IsValue := by
  rw [List.forall_mem_map]
  constructor
  · intro h c hc
    rw [← List.zipIdx_map_fst 0 cs] at hc
    obtain ⟨⟨c, i⟩, hci, rfl⟩ := List.mem_map.1 hc
    obtain ⟨a, ha⟩ := h _ hci
    cases c with
    | undefined => cases ha
    | value b => exact Exact.isValue_value b
  · rintro h ⟨c, i⟩ hci
    exact (h c (List.fst_mem_of_mem_zipIdx hci)).div (Nat.cast_ne_zero.2 i.succ_ne_zero)

/-- A constant is defined at an undefined point, and its integral is not. -/
theorem isValue_integralAt_iff {p : Polynomial (Exact K)} {x k : Exact K} :
    (p.integralAt x k).IsValue ↔ k.IsValue ∧ (p.eval x).IsValue ∧ (x - p.origin).IsValue := by
  by_cases hx : (x - p.origin).IsValue
  · rw [integralAt_eq_eval fun _ => hx, eval, eval, antiderivative]
    obtain ⟨t, ht⟩ := hx
    rw [ht, isValue_horner_iff, isValue_horner_iff, antiderivativeCoefs, List.forall_mem_cons,
      forall_isValue_div_iff]
    exact and_congr_right fun _ => (and_iff_left (Exact.isValue_value t)).symm
  · rw [integralAt, Exact.not_isValue_iff.1 hx, Exact.mulAdd_eq, Exact.mul_undefined]
    constructor
    · exact fun h => (Exact.not_isValue_iff.2 rfl h).elim
    · exact fun h => (Exact.not_isValue_iff.2 rfl h.2.2).elim

end Polynomial

namespace Affine

variable {t : Affine (Exact K)} {y : Exact K}

theorem Regular.isValue_apply_iff (h : t.Regular) :
    (t.apply y).IsValue ↔ t.yAdd.IsValue ∧ y.IsValue := by
  obtain ⟨n, hn, -⟩ := h.yMul
  rw [apply, hn, Exact.isValue_value_mul_iff, Exact.isValue_add_iff]

end Affine

namespace Curve

/-- Integrating the curve up to a point reads a curve at another one: itself at the point, and the
curves on the bands that the running value is carried over at the ends of these. -/
inductive Reads {α : Type u} [Scalar α] : Curve α → α → Curve α → α → Prop
  | self {f x} : Reads f x f x
  | affine {t f x g u} (h : Reads f (t.inner x) g u) : Reads (.affine t f) x g u
  | within {bands x b g u} (hb : b ∈ reachedBands bands x) (hx : b.contains x)
      (h : Reads b.body x g u) : Reads (.piecewise bands) x g u
  | start {bands x b g u} (hb : b ∈ (reachedBands bands x).tail) (h : Reads b.body b.min g u) :
      Reads (.piecewise bands) x g u
  | finish {bands x b g u} (hb : b ∈ reachedBands bands x) (hx : ¬b.contains x)
      (h : Reads b.body b.max g u) : Reads (.piecewise bands) x g u

/-- The curve has a value at the point, and a polynomial a distance from its origin too. -/
structure IsReadable (g : Curve (Exact K)) (u : Exact K) : Prop where
  eval : (g.eval u).IsValue
  distance : ∀ p, g = .polynomial p → (u - p.origin).IsValue

/-- All that integrating up to the point reads is defined. -/
def ReadsDefined (f : Curve (Exact K)) (x : Exact K) : Prop :=
  ∀ g u, Reads f x g u → IsReadable g u

variable {f : Curve (Exact K)} {t : Affine (Exact K)} {p : Polynomial (Exact K)}
  {b : Band (Exact K) (Curve (Exact K))} {bands : List (Band (Exact K) (Curve (Exact K)))}
  {x : Exact K}

theorem ReadsDefined.eval (h : ReadsDefined f x) : (f.eval x).IsValue :=
  (h f x .self).eval

theorem readsDefined_polynomial_iff :
    ReadsDefined (.polynomial p) x ↔ (p.eval x).IsValue ∧ (x - p.origin).IsValue := by
  constructor
  · intro h
    have hp := h _ _ .self
    exact ⟨hp.eval, hp.distance p rfl⟩
  · intro h g u hr
    cases hr
    constructor
    · exact h.1
    · intro q hq
      cases hq
      exact h.2

theorem readsDefined_affine_iff (ht : t.Regular) :
    ReadsDefined (.affine t f) x ↔ t.yAdd.IsValue ∧ ReadsDefined f (t.inner x) := by
  constructor
  · intro h
    constructor
    · exact (ht.isValue_apply_iff.1 h.eval).1
    · exact fun g u hr => h g u (.affine hr)
  · rintro ⟨hy, hf⟩ g u hr
    cases hr with
    | self =>
      constructor
      · exact ht.isValue_apply_iff.2 ⟨hy, hf.eval⟩
      · exact fun p hp => by cases hp
    | affine hr => exact hf g u hr

structure ReadsDefinedAfter (bands : List (Band (Exact K) (Curve (Exact K)))) (x : Exact K) :
    Prop where
  eval : ((piecewise bands).eval x).IsValue
  start : ∀ b ∈ reachedBands bands x, ReadsDefined b.body b.min
  finish : ∀ b ∈ reachedBands bands x, ¬b.contains x → ReadsDefined b.body b.max
  within : ∀ b ∈ reachedBands bands x, b.contains x → ReadsDefined b.body x

theorem readsDefined_cons_of_contains (hx : b.contains x) :
    ReadsDefined (.piecewise (b :: bands)) x ↔ ReadsDefined b.body x := by
  constructor
  · exact fun h g u hr => h g u (.within mem_reachedBands_self hx hr)
  · intro h g u hr
    cases hr with
    | self =>
      constructor
      · rw [eval_cons, if_pos hx]
        exact h.eval
      · exact fun p hp => by cases hp
    | within hc _ hr =>
      rw [reachedBands_cons_of_contains hx, List.mem_singleton] at hc
      subst hc
      exact h g u hr
    | start hc _ =>
      rw [reachedBands_cons_of_contains hx] at hc
      cases hc
    | finish hc hx' _ =>
      rw [reachedBands_cons_of_contains hx, List.mem_singleton] at hc
      subst hc
      exact absurd hx hx'

theorem readsDefined_cons_of_not (hx : ¬b.contains x) :
    ReadsDefined (.piecewise (b :: bands)) x ↔
      ReadsDefined b.body b.max ∧ ReadsDefinedAfter bands x := by
  have hreached : reachedBands (b :: bands) x = b :: reachedBands bands x :=
    reachedBands_cons_of_not hx
  have heval : (piecewise (b :: bands)).eval x = (piecewise bands).eval x :=
    eval_cons_of_not hx
  constructor
  · intro h
    constructor
    · exact fun g u hr => h g u (.finish mem_reachedBands_self hx hr)
    constructor
    · rw [← heval]
      exact h.eval
    · intro c hc g u hr
      apply h g u (.start _ hr)
      rwa [hreached]
    · intro c hc hcx g u hr
      apply h g u (.finish _ hcx hr)
      rw [hreached]
      exact List.mem_cons_of_mem b hc
    · intro c hc hcx g u hr
      apply h g u (.within _ hcx hr)
      rw [hreached]
      exact List.mem_cons_of_mem b hc
  · rintro ⟨hmax, hafter⟩ g u hr
    cases hr with
    | self =>
      constructor
      · rw [heval]
        exact hafter.eval
      · exact fun p hp => by cases hp
    | within hc hcx hr =>
      rw [hreached] at hc
      rcases List.mem_cons.1 hc with rfl | hc
      · exact absurd hcx hx
      · exact hafter.within _ hc hcx g u hr
    | start hc hr =>
      rw [hreached] at hc
      exact hafter.start _ hc g u hr
    | finish hc hcx hr =>
      rw [hreached] at hc
      rcases List.mem_cons.1 hc with rfl | hc
      · exact hmax g u hr
      · exact hafter.finish _ hc hcx g u hr

theorem readsDefinedAfter_cons_of_contains (hx : b.contains x) :
    ReadsDefinedAfter (b :: bands) x ↔ ReadsDefined b.body b.min ∧ ReadsDefined b.body x := by
  have hreached : reachedBands (b :: bands) x = [b] := reachedBands_cons_of_contains hx
  constructor
  · exact fun h => ⟨h.start b mem_reachedBands_self, h.within b mem_reachedBands_self hx⟩
  · rintro ⟨hmin, hself⟩
    constructor
    · rw [eval_cons, if_pos hx]
      exact hself.eval
    · rw [hreached, List.forall_mem_singleton]
      exact hmin
    · rw [hreached, List.forall_mem_singleton]
      exact fun h => absurd hx h
    · rw [hreached, List.forall_mem_singleton]
      exact fun _ => hself

theorem readsDefinedAfter_cons_of_not (hx : ¬b.contains x) :
    ReadsDefinedAfter (b :: bands) x ↔
      ReadsDefined b.body b.min ∧ ReadsDefined b.body b.max ∧ ReadsDefinedAfter bands x := by
  have hreached : reachedBands (b :: bands) x = b :: reachedBands bands x :=
    reachedBands_cons_of_not hx
  have heval : (piecewise (b :: bands)).eval x = (piecewise bands).eval x :=
    eval_cons_of_not hx
  constructor
  · rintro ⟨hv, hstart, hfinish, hwithin⟩
    rw [hreached, List.forall_mem_cons] at hstart hfinish hwithin
    rw [heval] at hv
    exact ⟨hstart.1, hfinish.1 hx, hv, hstart.2, hfinish.2, hwithin.2⟩
  · rintro ⟨hmin, hmax, h⟩
    constructor
    · rw [heval]
      exact h.eval
    · rw [hreached, List.forall_mem_cons]
      exact ⟨hmin, h.start⟩
    · rw [hreached, List.forall_mem_cons]
      exact ⟨fun _ => hmax, h.finish⟩
    · rw [hreached, List.forall_mem_cons]
      exact ⟨fun hc => absurd hc hx, h.within⟩

/-- The integral never fails, and is defined where all that it reads is and its constant too. -/
def IntegratesWhereDefined (f : Curve (Exact K)) : Prop :=
  ∀ x k, ∃ y, f.integralAt x k = .ok y ∧ (y.IsValue ↔ k.IsValue ∧ ReadsDefined f x)

theorem integralAfter_isValue_iff (h : ∀ b ∈ bands, b.body.IntegratesWhereDefined)
    (x reached : Exact K) :
    ∃ y, integralAfter bands x reached = .ok y ∧
      (y.IsValue ↔ reached.IsValue ∧ ReadsDefinedAfter bands x) := by
  induction bands generalizing reached with
  | nil =>
    refine ⟨.undefined, rfl, ?_⟩
    constructor
    · exact fun hy => (Exact.not_isValue_iff.2 rfl hy).elim
    · exact fun hy => (Exact.not_isValue_iff.2 rfl hy.2.eval).elim
  | cons b bands ih =>
    obtain ⟨hb, hbands⟩ := List.forall_mem_cons.1 h
    have hzero : (0 : Exact K).IsValue := ⟨0, Exact.zero_eq⟩
    obtain ⟨start, hstart, hstartv⟩ := hb b.min 0
    rw [integralAfter, hstart]
    by_cases hx : b.contains x
    · obtain ⟨y, hy, hyv⟩ := hb x 0
      refine ⟨y + (reached - start), ?_, ?_⟩
      · change (if b.contains x then _ else _) = _
        rw [if_pos hx, hy]
        rfl
      · rw [readsDefinedAfter_cons_of_contains hx, Exact.isValue_add_iff, Exact.isValue_sub_iff,
          hyv, hstartv]
        tauto
    · obtain ⟨y, hy, hyv⟩ := hb b.max 0
      obtain ⟨z, hz, hzv⟩ := ih hbands (y + (reached - start))
      refine ⟨z, ?_, ?_⟩
      · change (if b.contains x then _ else _) = _
        rw [if_neg hx, hy]
        exact hz
      · rw [hzv, readsDefinedAfter_cons_of_not hx, Exact.isValue_add_iff, Exact.isValue_sub_iff,
          hyv, hstartv]
        tauto

theorem integralFrom_isValue_iff (h : ∀ b ∈ bands, b.body.IntegratesWhereDefined) :
    (piecewise bands).IntegratesWhereDefined := by
  intro x k
  cases bands with
  | nil =>
    refine ⟨.undefined, rfl, ?_⟩
    constructor
    · exact fun hy => (Exact.not_isValue_iff.2 rfl hy).elim
    · exact fun hy => (Exact.not_isValue_iff.2 rfl hy.2.eval).elim
  | cons b bands =>
    obtain ⟨hb, hbands⟩ := List.forall_mem_cons.1 h
    rw [integralAt, integralFrom]
    change ∃ y, (if b.contains x then _ else _) = _ ∧ _
    by_cases hx : b.contains x
    · obtain ⟨y, hy, hyv⟩ := hb x k
      refine ⟨y, ?_, ?_⟩
      · rw [if_pos hx, hy]
        change Except.ok (y + 0) = _
        rw [Exact.zero_eq, Exact.add_zero]
      · rw [hyv, readsDefined_cons_of_contains hx]
    · obtain ⟨y, hy, hyv⟩ := hb b.max k
      obtain ⟨z, hz, hzv⟩ := integralAfter_isValue_iff hbands x y
      refine ⟨z, ?_, ?_⟩
      · rw [if_neg hx, hy]
        change integralAfter bands x (y + 0) = _
        rw [Exact.zero_eq, Exact.add_zero, hz]
      · rw [hzv, hyv, readsDefined_cons_of_not hx, and_assoc]

variable [IsStrictOrderedRing K]

theorem Everywhere.integratesWhereDefined (h : RegularTree f) : f.IntegratesWhereDefined := by
  induction h with
  | @polynomial p _ =>
    intro x k
    refine ⟨p.integralAt x k, rfl, ?_⟩
    rw [Polynomial.isValue_integralAt_iff, readsDefined_polynomial_iff]
  | piecewise _ _ ih => exact integralFrom_isValue_iff ih
  | @affine t f ht _ ih =>
    intro x k
    obtain ⟨y, hy, hyv⟩ := ih (t.inner x) k
    refine ⟨t.antiderivative.apply y, ?_, ?_⟩
    · rw [integralAt, hy]
      rfl
    · rw [(Affine.regular_antiderivative ht).isValue_apply_iff, hyv, readsDefined_affine_iff ht]
      exact and_left_comm
  | oscillator h => exact h.elim

/-- The integral from any constant is defined if and only if every curve that it reads is: the curve
itself at the point, and those on the bands before at the ends where they are continued. -/
theorem integralAt_isValue_iff_reads (h : RegularTree f) (k : K) (x : Exact K) :
    (∃ y, f.integralAt x (value k) = .ok (value y)) ↔ ∀ g u, Reads f x g u → IsReadable g u := by
  obtain ⟨y, hy, hyv⟩ := h.integratesWhereDefined x (value k)
  rw [hy]
  constructor
  · rintro ⟨a, ha⟩
    cases ha
    exact (hyv.1 (Exact.isValue_value a)).2
  · intro hr
    obtain ⟨a, rfl⟩ := hyv.2 ⟨Exact.isValue_value k, hr⟩
    exact ⟨a, rfl⟩

/-- Bands are not empty, and none begins before the one ahead of it ends. -/
def HasOrderedBands : Curve (Exact K) → Prop
  | .piecewise bands => (∀ b ∈ bands, b.min < b.max) ∧ bands.Pairwise fun b c => b.max ≤ c.min
  | .polynomial _ | .affine _ _ | .oscillator _ => True

def stoppedBand : Curve (Exact ℝ) :=
  .piecewise [⟨value (-1), value 0, .polynomial ⟨[value 1], value 0⟩⟩]

def shortBands : Curve (Exact ℝ) := .piecewise
  [⟨value (-1), value 1, stoppedBand⟩,
    ⟨value 1, value (1 + 1), .polynomial ⟨[value 1], value 0⟩⟩]

theorem regularTree_shortBands : RegularTree shortBands := by
  apply Everywhere.piecewise trivial
  rw [List.forall_mem_cons, List.forall_mem_singleton]
  constructor
  · apply Everywhere.piecewise trivial
    rw [List.forall_mem_singleton]
    exact .polynomial trivial
  · exact .polynomial trivial

theorem not_readsDefined_shortBands : ¬ReadsDefined shortBands (value (1 + 1)) := by
  intro h
  have hend : ¬Band.contains ⟨value (-1 : ℝ), value 1, stoppedBand⟩ (value (1 + 1)) :=
    not_contains_of_lt (lt_add_one 1)
  have hread := h stoppedBand (value 1) (.finish mem_reachedBands_self hend .self)
  have hv := hread.eval
  rw [stoppedBand, eval_cons_of_lt one_pos] at hv
  exact Exact.not_isValue_iff.2 rfl hv

theorem integralAt_isValue_iff_reads_shortBands :
    RegularTree shortBands ∧
      ¬∃ y, shortBands.integralAt (value (1 + 1)) (value 7) = .ok (value y) := by
  constructor
  · exact regularTree_shortBands
  · intro hy
    apply not_readsDefined_shortBands
    exact (integralAt_isValue_iff_reads regularTree_shortBands 7 (value (1 + 1))).1 hy

/-- On bands in order, the curve may have a value where the integral has none. -/
theorem integralAt_undefined_of_inner_gap :
    RegularTree shortBands ∧ Everywhere IsPlaced shortBands ∧
      Everywhere HasOrderedBands shortBands ∧
      shortBands.eval (value (1 + 1)) = value 1 ∧
      shortBands.integralAt (value (1 + 1)) (value 7) = .ok .undefined := by
  have hv (a : ℝ) : (value a).IsValue := Exact.isValue_value a
  have hplaced : Everywhere IsPlaced shortBands := by
    apply Everywhere.piecewise
    · simp only [IsPlaced, List.forall_mem_cons]
      exact ⟨⟨hv _, hv _⟩, ⟨hv _, hv _⟩, List.forall_mem_nil _⟩
    · rw [List.forall_mem_cons, List.forall_mem_singleton]
      constructor
      · apply Everywhere.piecewise
        · exact List.forall_mem_singleton.2 ⟨hv _, hv _⟩
        · exact List.forall_mem_singleton.2 (.polynomial (hv 0))
      · exact .polynomial (hv 0)
  have hordered : Everywhere HasOrderedBands shortBands := by
    apply Everywhere.piecewise
    · simp [HasOrderedBands]
    · rw [List.forall_mem_cons, List.forall_mem_singleton]
      constructor
      · apply Everywhere.piecewise
        · simp [HasOrderedBands]
        · exact List.forall_mem_singleton.2 (.polynomial trivial)
      · exact .polynomial trivial
  refine ⟨regularTree_shortBands, hplaced, hordered, ?_, ?_⟩
  · rw [shortBands, eval_cons_of_lt (lt_add_one 1), eval_cons_of_le (lt_add_one 1).le le_rfl]
    rfl
  · obtain ⟨y, hy, hyv⟩ :=
      regularTree_shortBands.integratesWhereDefined (value (1 + 1)) (value 7)
    have hundefined : y = .undefined :=
      Exact.not_isValue_iff.1 fun h => not_readsDefined_shortBands (hyv.1 h).2
    rw [hy, hundefined]

end Curve
end Curves
