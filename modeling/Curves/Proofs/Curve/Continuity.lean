import Curves.Proofs.Curve.Sampling
import Curves.Proofs.Curve.Stitching

namespace Curves

universe u

variable {K : Type u} [Field K] [LinearOrder K] [Elementary K]

open Exact (value)

theorem Polynomial.antiderivative_eq_raise (p : Polynomial (Exact K)) (k : K) :
    p.antiderivative (value k) = (p.antiderivative 0).raise (value k) := by
  simp [antiderivative, antiderivativeCoefs, raise, mapConstant]

namespace Curve

/-- The values of `g` are those of `f` with the number `s` added, and undefined where they are. -/
def IsShiftBy (g f : Curve (Exact K)) (s : K) : Prop :=
  ∀ x, g.eval x = f.eval x + value s

variable {f g own : Curve (Exact K)} {s : K} {bands gs : List (Band (Exact K) (Curve (Exact K)))}

theorem IsShiftBy.isValue (h : g.IsShiftBy f s) {x : Exact K} (hx : (f.eval x).IsValue) :
    (g.eval x).IsValue := by
  rw [h]
  exact hx.add (Exact.isValue_value s)

theorem isShiftBy_raise (h : RegularTree f) (v : K) : (f.raise (value v)).IsShiftBy f v :=
  h.isShiftable.eval_raise (value v)

theorem IsShiftBy.cons (h : g.IsShiftBy f s) (hs : (piecewise gs).IsShiftBy (piecewise bands) s)
    (lo hi : Exact K) :
    (piecewise (⟨lo, hi, g⟩ :: gs)).IsShiftBy (piecewise (⟨lo, hi, f⟩ :: bands)) s := by
  intro x
  rw [eval_cons, eval_cons, h, hs]
  change (if Band.contains ⟨lo, hi, f⟩ x then _ else _) =
    (if Band.contains ⟨lo, hi, f⟩ x then _ else _) + value s
  split_ifs <;> rfl

theorem IsShiftBy.affine {t : Affine (Exact K)} {n : K} (hn : t.yMul = value n)
    (h : g.IsShiftBy f s) : (affine t g).IsShiftBy (affine t f) (n * s) := by
  intro x
  rw [eval, eval, h, Affine.apply, Affine.apply, hn, ← Exact.add_assoc, Exact.mul_add,
    Exact.value_mul]

theorem Everywhere.isRegular_antiderivative (h : RegularTree f) {k : Exact K}
    (hg : f.antiderivative k = .ok g) : RegularTree g := by
  obtain ⟨g', hg', hr, -⟩ := h.integratesPointwise k
  rw [hg, Except.ok.injEq] at hg'
  rw [hg']
  exact hr

/-- What is added to the value reached before is added on all later bands. -/
theorem antiderivativeAfter_add (h : ∀ b ∈ bands, RegularTree b.body) (reached : Exact K) (s : K) :
    ∃ gs hs, antiderivativeAfter bands reached = .ok gs ∧
      antiderivativeAfter bands (reached + value s) = .ok hs ∧
      (piecewise hs).IsShiftBy (piecewise gs) s := by
  induction bands generalizing reached with
  | nil => exact ⟨[], [], rfl, rfl, fun _ => rfl⟩
  | cons b bands ih =>
    obtain ⟨lo, hi, f⟩ := b
    obtain ⟨hf, hbands⟩ := List.forall_mem_cons.1 h
    obtain ⟨own, hown, hr, -⟩ := hf.integratesPointwise 0
    have hshift : (own.raise (reached + value s - own.eval lo)).IsShiftBy
        (own.raise (reached - own.eval lo)) s := by
      intro x
      rw [hr.isShiftable.eval_raise, hr.isShiftable.eval_raise, Exact.add_sub_right_comm, Exact.add_assoc]
    obtain ⟨gs, hs, hgs, hhs, hrest⟩ := ih hbands ((own.raise (reached - own.eval lo)).eval hi)
    rw [← hshift] at hhs
    refine ⟨_ :: gs, _ :: hs, ?_, ?_, hshift.cons hrest lo hi⟩
    · exact antiderivativeAfter_cons_ok_iff.2 ⟨own, gs, hown, hgs, rfl⟩
    · exact antiderivativeAfter_cons_ok_iff.2 ⟨own, hs, hown, hhs, rfl⟩

/-- Antiderivatives of a curve with different constants differ by a number. -/
theorem Everywhere.exists_isShiftBy (h : RegularTree f) (k : K) :
    ∃ own g s, f.antiderivative 0 = .ok own ∧ f.antiderivative (value k) = .ok g ∧
      g.IsShiftBy own s := by
  induction h with
  | @polynomial p _ =>
    refine ⟨_, _, k, rfl, rfl, ?_⟩
    rw [Polynomial.antiderivative_eq_raise]
    exact isShiftBy_raise (.polynomial trivial) k
  | @piecewise bands _ hb ih =>
    cases bands with
    | nil => exact ⟨.piecewise [], .piecewise [], k, rfl, rfl, fun _ => rfl⟩
    | cons b bands =>
      obtain ⟨lo, hi, f⟩ := b
      obtain ⟨own, g, s, hown, hg, hs⟩ := ih _ List.mem_cons_self
      have hbands : ∀ c ∈ bands, RegularTree c.body := fun c hc => hb c (List.mem_cons_of_mem _ hc)
      obtain ⟨gs, gs', hgs, hgs', hrest⟩ := antiderivativeAfter_add hbands (own.eval hi) s
      rw [← hs] at hgs'
      exact ⟨_, _, s, antiderivative_cons_ok hown hgs, antiderivative_cons_ok hg hgs',
        hs.cons hrest lo hi⟩
  | @affine t f ht _ ih =>
    obtain ⟨own, g, s, hown, hg, hs⟩ := ih
    obtain ⟨n, hn, -⟩ := (Affine.regular_antiderivative ht).yMul
    exact ⟨_, _, _, antiderivative_affine_ok hown, antiderivative_affine_ok hg, hs.affine hn⟩
  | oscillator h => exact h.elim

/-- The curve on the band has an antiderivative that is defined at both ends of the band. -/
def IsDefinedAtEnds (b : Band (Exact K) (Curve (Exact K))) : Prop :=
  ∃ own, b.body.antiderivative 0 = .ok own ∧ (own.eval b.min).IsValue ∧ (own.eval b.max).IsValue

/-- The second band begins with the value that the first one ends with. -/
def Continues (b c : Band (Exact K) (Curve (Exact K))) : Prop :=
  ∃ y, b.body.eval b.max = value y ∧ c.body.eval c.min = value y

/-- The second band holds the antiderivative of the curve on the first one, up to a shift. -/
def Integrates (b c : Band (Exact K) (Curve (Exact K))) : Prop :=
  ∃ own s, b.body.antiderivative 0 = .ok own ∧ c.body.IsShiftBy own s

/-- What the bands of the antiderivative with constant `k` are to the bands of the curve. -/
structure IsStitched (bands gs : List (Band (Exact K) (Curve (Exact K)))) (k : K) : Prop where
  ranges_eq : Bands.ranges gs = Bands.ranges bands
  /-- The first band has the antiderivative with the constant `k` on it. -/
  first : ∀ b ∈ bands.head?, ∃ g, b.body.antiderivative (value k) = .ok g ∧
    gs.head? = some ⟨b.min, b.max, g⟩
  /-- The value is handed on from band to band, also across a gap. -/
  isChain : gs.IsChain Continues
  integrates : List.Forall₂ Integrates bands gs

theorem antiderivativeAfter_continues (h : ∀ b ∈ bands, RegularTree b.body)
    (hd : ∀ b ∈ bands, IsDefinedAtEnds b) (r : K) :
    ∃ gs, antiderivativeAfter bands (value r) = .ok gs ∧
      (∀ c ∈ gs.head?, c.body.eval c.min = value r) ∧ gs.IsChain Continues ∧
      List.Forall₂ Integrates bands gs := by
  induction bands generalizing r with
  | nil => exact ⟨[], rfl, nofun, .nil, .nil⟩
  | cons b bands ih =>
    obtain ⟨lo, hi, f⟩ := b
    obtain ⟨hf, hbands⟩ := List.forall_mem_cons.1 h
    obtain ⟨⟨own, hown, ⟨l, hl⟩, ⟨u, hu⟩⟩, hdbands⟩ := List.forall_mem_cons.1 hd
    have hshift := isShiftBy_raise (hf.isRegular_antiderivative hown) (r - l)
    have hlo : (own.raise (value (r - l))).eval lo = value r := by
      rw [hshift, hl, Exact.value_add, add_sub_cancel]
    have hhi : (own.raise (value (r - l))).eval hi = value (u + (r - l)) := by
      rw [hshift, hu, Exact.value_add]
    obtain ⟨gs, hgs, hfirst, hchain, hint⟩ := ih hbands hdbands (u + (r - l))
    refine ⟨⟨lo, hi, own.raise (value (r - l))⟩ :: gs, ?_, ?_, ?_, ?_⟩
    · refine antiderivativeAfter_cons_ok_iff.2 ⟨own, gs, hown, ?_, ?_⟩
      · rw [hl, Exact.value_sub, hhi, hgs]
      · rw [hl, Exact.value_sub]
    · intro c hc
      cases hc
      exact hlo
    · exact List.isChain_cons.2 ⟨fun c hc => ⟨_, hhi, hfirst c hc⟩, hchain⟩
    · exact .cons ⟨own, _, hown, hshift⟩ hint

/-- The antiderivative on bands keeps their ranges, begins with the antiderivative of the first
curve, continues every band where the one before it ends, and differs on each band from the
antiderivative of the curve there by a number. -/
theorem antiderivative_isStitched (h : ∀ b ∈ bands, RegularTree b.body)
    (hd : ∀ b ∈ bands, IsDefinedAtEnds b) (k : K) :
    ∃ gs, (piecewise bands).antiderivative (value k) = .ok (piecewise gs) ∧
      IsStitched bands gs k := by
  cases bands with
  | nil => exact ⟨[], rfl, rfl, nofun, .nil, .nil⟩
  | cons b bands =>
    obtain ⟨lo, hi, f⟩ := b
    obtain ⟨hf, hbands⟩ := List.forall_mem_cons.1 h
    obtain ⟨⟨own, hown, -, hu⟩, hdbands⟩ := List.forall_mem_cons.1 hd
    obtain ⟨own', g, s, hown', hg, hs⟩ := hf.exists_isShiftBy k
    obtain rfl : own = own' := Except.ok.inj (hown.symm.trans hown')
    obtain ⟨r, hr⟩ := hs.isValue hu
    obtain ⟨gs, hgs, hfirst, hchain, hint⟩ := antiderivativeAfter_continues hbands hdbands r
    rw [← hr] at hgs
    refine ⟨_, antiderivative_cons_ok hg hgs, ?_, ?_, ?_, ?_⟩
    · exact congrArg (_ :: ·) (ranges_antiderivativeAfter hgs)
    · intro b hb
      cases hb
      exact ⟨g, hg, rfl⟩
    · exact List.isChain_cons.2 ⟨fun c hc => ⟨r, hr, hfirst c hc⟩, hchain⟩
    · exact .cons ⟨own, s, hown, hs⟩ hint

theorem IsPiece.isDefinedAtEnds [IsStrictOrderedRing K] (h : f.IsPiece) (lo hi : K) :
    IsDefinedAtEnds ⟨value lo, value hi, f⟩ := by
  obtain ⟨own, hown, hs⟩ := h.antiderivative 0
  rw [← Exact.zero_eq] at hown
  exact ⟨own, hown, hs.isTotal lo, hs.isTotal hi⟩

/-- Two bands with a gap between them, the first one cut into bands again, the second one mirrored
and stretched. -/
def gapBands : List (Band (Exact ℝ) (Curve (Exact ℝ))) :=
  [⟨value (-1), value 0, .piecewise
      [⟨value (-1), value 0, .polynomial ⟨[value 1, value 1], value 0⟩⟩]⟩,
    ⟨value 1, value (1 + 1),
      .affine ⟨value 0, value (-1), value 1, value (1 + 1)⟩ (.polynomial ⟨[value 1], value 0⟩)⟩]

theorem antiderivative_isStitched_gapBands :
    (∀ b ∈ gapBands, RegularTree b.body) ∧ (∀ b ∈ gapBands, IsDefinedAtEnds b) ∧
      ∃ gs, (piecewise gapBands).antiderivative (value 7) = .ok (piecewise gs) ∧
        IsStitched gapBands gs 7 := by
  have ht : Affine.Regular ⟨value 0, value (-1), value 1, value (1 + 1 : ℝ)⟩ :=
    ⟨⟨-1, rfl, by norm_num⟩, 1 + 1, rfl, by norm_num⟩
  have hreg : ∀ b ∈ gapBands, RegularTree b.body := by
    simp only [gapBands, List.forall_mem_cons]
    refine ⟨.piecewise trivial ?_, .affine ht (.polynomial trivial), nofun⟩
    exact List.forall_mem_singleton.2 (.polynomial trivial)
  have hline : Polynomial.IsDefined ⟨[value 1, value 1], value (0 : ℝ)⟩ :=
    ⟨by simp [Exact.isValue_value], Exact.isValue_value 0⟩
  have hlevel : Polynomial.IsDefined ⟨[value 1], value (0 : ℝ)⟩ :=
    ⟨by simp [Exact.isValue_value], Exact.isValue_value 0⟩
  have hends : ∀ b ∈ gapBands, IsDefinedAtEnds b := by
    simp only [gapBands, List.forall_mem_cons]
    refine ⟨?_, (IsPiece.affine ht ⟨0, rfl⟩ ⟨1, rfl⟩ hlevel).isDefinedAtEnds 1 (1 + 1), nofun⟩
    obtain ⟨own, hown, hlo, hhi⟩ := (IsPiece.polynomial hline).isDefinedAtEnds (-1) 0
    refine ⟨_, antiderivative_cons_ok hown rfl, ?_, ?_⟩
    · rw [eval_cons_of_le le_rfl (by norm_num)]
      exact hlo
    · rw [eval_cons_of_le (by norm_num) le_rfl]
      exact hhi
  exact ⟨hreg, hends, antiderivative_isStitched hreg hends 7⟩

end Curve
end Curves
