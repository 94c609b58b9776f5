import Curves.Proofs.Exact.Real
import Curves.Proofs.Spline.Span

namespace Curves.Spline

universe u

variable {K : Type u} [Field K] [LinearOrder K]

open Exact (value)
open Curve (piecewise)

/-- The bands of a spline from the point `p` on, where it has the slope `s`, through the points
`ps`, each of them to the right of the one before. -/
inductive Through : ControlPoint K → K → List (ControlPoint K) →
    List (Band (Exact K) (Curve (Exact K))) → Prop
  | last {p s} : Through p s [] []
  | span {p q s m t ps bands} (hx : p.x < q.x)
      (hm : (s + 2 * m + t) * (q.x - p.x) = 4 * (q.y - p.y)) (hq : Agrees t q.slope?)
      (h : Through q t ps bands) :
      Through p s (q :: ps)
        (⟨value p.x, value (middle p q), half p s (middle p q) m⟩ ::
          ⟨value (middle p q), value q.x, half q t (middle p q) m⟩ :: bands)

variable {p : ControlPoint K} {s : K} {ps : List (ControlPoint K)}
  {bands : List (Band (Exact K) (Curve (Exact K)))}

/-- The halves of the spans between neighbouring points, each with its two ends. -/
def halves : List (ControlPoint K) → List (K × K)
  | p :: q :: ps => (p.x, middle p q) :: (middle p q, q.x) :: halves (q :: ps)
  | _ => []

namespace Through

theorem lt (h : Through p s ps bands) : ∀ q ∈ ps, p.x < q.x := by
  induction h with
  | last => exact nofun
  | span hx _ _ _ ih => exact List.forall_mem_cons.2 ⟨hx, fun r hr => hx.trans (ih r hr)⟩

theorem length_eq (h : Through p s ps bands) : bands.length = 2 * ps.length := by
  induction h with
  | last => rfl
  | span _ _ _ _ ih => rw [List.length_cons, List.length_cons, ih, List.length_cons, mul_add]

theorem ranges_eq (h : Through p s ps bands) :
    Bands.ranges bands = (halves (p :: ps)).map (Prod.map value value) := by
  induction h with
  | last => rfl
  | span _ _ _ _ ih => exact congrArg (_ :: _ :: ·) ih

end Through

variable [Elementary K]

/-- The bands take the value of the point, and a slope that agrees with the prescribed one. -/
def Passes (bands : List (Band (Exact K) (Curve (Exact K)))) (p : ControlPoint K) : Prop :=
  ∃ b s, Bands.at? bands (value p.x) = some b ∧ b.body.eval (value p.x) = value p.y ∧
    b.body.slope (value p.x) = value s ∧ Agrees s p.slope?

theorem Passes.eval_eq (h : Passes bands p) :
    (piecewise bands).eval (value p.x) = value p.y := by
  obtain ⟨b, s, hb, hy, -⟩ := h
  rw [Curve.eval, Curve.evalBands_eq, hb]
  exact hy

theorem Passes.slope_eq (h : Passes bands p) {d : K} (hd : p.slope? = some d) :
    (piecewise bands).slope (value p.x) = value d := by
  obtain ⟨b, s, hb, -, hs, ha⟩ := h
  rw [Curve.slope, Curve.slopeBands_eq, hb, ← ha d hd]
  exact hs

/-- Two bands share an end, and their curves have the same value and the same slope there. -/
def Joined (b c : Band (Exact K) (Curve (Exact K))) : Prop :=
  ∃ x y s, b.max = value x ∧ c.min = value x ∧
    b.body.eval (value x) = value y ∧ c.body.eval (value x) = value y ∧
    b.body.slope (value x) = value s ∧ c.body.slope (value x) = value s

/-- What the bands of a spline are to the points in ascending order. -/
structure Interpolates (bands : List (Band (Exact K) (Curve (Exact K))))
    (points : List (ControlPoint K)) : Prop where
  length_eq : bands.length = 2 * (points.length - 1)
  ranges_eq : Bands.ranges bands = (halves points).map (Prod.map value value)
  domain : ∀ x, ((piecewise bands).eval x).IsValue ↔
    ∃ a, x = value a ∧ (∃ p ∈ points, p.x ≤ a) ∧ ∃ q ∈ points, a ≤ q.x
  eval_eq : ∀ p ∈ points, (piecewise bands).eval (value p.x) = value p.y
  slope_eq : ∀ p ∈ points, ∀ d, p.slope? = some d →
    (piecewise bands).slope (value p.x) = value d
  isChain : bands.IsChain Joined

theorem sortPoints_map (points : List (ControlPoint K)) (hx : (points.map (·.x)).Nodup) :
    ∃ sorted : List (ControlPoint K), sorted.Perm points ∧
      sorted.Pairwise (fun p q => p.x < q.x) ∧
      sortPoints (points.map (ControlPoint.map value)) = sorted.map (ControlPoint.map value) := by
  let sorted := points.mergeSort fun p q => decide (p.x ≤ q.x)
  have hperm : sorted.Perm points := List.mergeSort_perm _ _
  have hle : sorted.Pairwise fun p q => p.x ≤ q.x := by
    have h : sorted.Pairwise fun p q => decide (p.x ≤ q.x) = true := by
      apply List.pairwise_mergeSort
      · intro p q r hpq hqr
        exact decide_eq_true ((of_decide_eq_true hpq).trans (of_decide_eq_true hqr))
      · intro p q
        rw [Bool.or_eq_true, decide_eq_true_eq, decide_eq_true_eq]
        exact le_total p.x q.x
    exact h.imp of_decide_eq_true
  have hne : sorted.Pairwise fun p q => p.x ≠ q.x :=
    List.pairwise_map.1 ((hperm.map _).nodup_iff.2 hx)
  refine ⟨sorted, hperm, hle.imp₂ (fun _ _ => lt_of_le_of_ne) hne, ?_⟩
  symm
  apply List.map_mergeSort
  intro p _ q _
  exact (Exact.totalLE_value p.x q.x).symm

namespace Through

theorem isTotal (h : Through p s ps bands) : ∀ b ∈ bands, b.body.IsTotal := by
  induction h with
  | last => exact nofun
  | span _ _ _ _ ih =>
    exact List.forall_mem_cons.2 ⟨isTotal_half, List.forall_mem_cons.2 ⟨isTotal_half, ih⟩⟩

theorem head (h : Through p s ps bands) : ∀ b ∈ bands.head?,
    b.min = value p.x ∧ b.body.eval (value p.x) = value p.y ∧
      b.body.slope (value p.x) = value s := by
  cases h with
  | last => exact nofun
  | span =>
    intro b hb
    cases hb
    exact ⟨rfl, eval_half_anchor, slope_half_anchor⟩

variable [IsStrictOrderedRing K]

theorem covers_iff (h : Through p s ps bands) (x : Exact K) :
    Bands.Covers bands x ↔ ∃ a, x = value a ∧ p.x ≤ a ∧ ∃ q ∈ ps, a ≤ q.x := by
  cases x with
  | undefined =>
    constructor
    · rintro ⟨b, hb, hx⟩
      exact absurd (Curve.contains_isValue hx) nofun
    · rintro ⟨a, ha, -⟩
      cases ha
  | value a =>
    simp only [Exact.value.injEq, exists_eq_left']
    induction h with
    | last => simp [Bands.Covers]
    | @span p q s m t ps bands hx _ _ h ih =>
      have hp := left_lt_middle hx
      have hq := middle_lt_right hx
      rw [Bands.covers_cons, Bands.covers_cons, Curve.contains_iff, Curve.contains_iff, ih]
      constructor
      · rintro (⟨hlo, hhi⟩ | ⟨hlo, hhi⟩ | ⟨hlo, r, hr, hhi⟩)
        · exact ⟨hlo, q, List.mem_cons_self, hhi.trans hq.le⟩
        · exact ⟨hp.le.trans hlo, q, List.mem_cons_self, hhi⟩
        · exact ⟨hx.le.trans hlo, r, List.mem_cons_of_mem _ hr, hhi⟩
      · rintro ⟨hlo, r, hr, hhi⟩
        rcases le_total a (middle p q) with ha | ha
        · exact .inl ⟨hlo, ha⟩
        · rcases le_total a q.x with ha' | ha'
          · exact .inr (.inl ⟨ha, ha'⟩)
          · rcases List.mem_cons.1 hr with rfl | hr
            · exact .inr (.inl ⟨ha, hhi⟩)
            · exact .inr (.inr ⟨ha', r, hr, hhi⟩)

/-- The two halves of a span meet because the mean of the slopes is the slope of the secant. -/
theorem joined_halves {q : ControlPoint K} {m t : K} (hx : p.x < q.x)
    (hm : (s + 2 * m + t) * (q.x - p.x) = 4 * (q.y - p.y)) :
    Joined ⟨value p.x, value (middle p q), half p s (middle p q) m⟩
      ⟨value (middle p q), value q.x, half q t (middle p q) m⟩ := by
  have hp := sub_ne_zero.2 (left_lt_middle hx).ne'
  have hq := sub_ne_zero.2 (middle_lt_right hx).ne
  refine ⟨_, _, _, rfl, rfl, eval_half_middle hp, ?_, slope_half_middle hp, slope_half_middle hq⟩
  rw [eval_half_middle hq]
  apply congrArg
  rw [middle]
  linear_combination (-1 / 4 : K) * hm

theorem isChain_joined (h : Through p s ps bands) : bands.IsChain Joined := by
  induction h with
  | last => exact .nil
  | @span p q s m t ps bands hx hm _ h ih =>
    rw [List.isChain_cons, List.isChain_cons]
    refine ⟨?_, ?_, ih⟩
    · intro b hb
      cases hb
      exact joined_halves hx hm
    · intro b hb
      obtain ⟨hmin, hy, hs⟩ := h.head b hb
      exact ⟨q.x, q.y, t, rfl, hmin, eval_half_anchor, hy, slope_half_anchor, hs⟩

theorem passes (h : Through p s ps bands) : ∀ q ∈ ps, Passes bands q := by
  induction h with
  | last => exact nofun
  | @span p q s m t ps bands hx _ hq h ih =>
    have hmid := middle_lt_right hx
    intro r hr
    rcases List.mem_cons.1 hr with rfl | hr
    · refine ⟨⟨value (middle p r), value r.x, half r t (middle p r) m⟩, t, ?_, eval_half_anchor,
        slope_half_anchor, hq⟩
      rw [Curve.at?_cons_of_lt hmid, Curve.at?_cons_of_le hmid.le le_rfl]
    · obtain ⟨b, d, hb, hy⟩ := ih r hr
      refine ⟨b, d, ?_, hy⟩
      rw [Curve.at?_cons_of_lt (hmid.trans (h.lt r hr)), Curve.at?_cons_of_lt (h.lt r hr), hb]

theorem passes_first (h : Through p s ps bands) (hps : ps ≠ []) (hp : Agrees s p.slope?) :
    Passes bands p := by
  cases h with
  | last => exact absurd rfl hps
  | @span _ q _ m _ _ _ hx =>
    refine ⟨⟨value p.x, value (middle p q), half p s (middle p q) m⟩, s, ?_, eval_half_anchor,
      slope_half_anchor, hp⟩
    exact Curve.at?_cons_of_le le_rfl (left_lt_middle hx).le

omit [Elementary K] in
theorem min_ge (h : Through p s ps bands) : ∀ b ∈ bands, ∃ m, b.min = value m ∧ p.x ≤ m := by
  induction h with
  | last => exact nofun
  | @span p q _ _ _ _ _ hx _ _ _ ih =>
    refine List.forall_mem_cons.2 ⟨⟨p.x, rfl, le_rfl⟩, List.forall_mem_cons.2 ⟨?_, ?_⟩⟩
    · exact ⟨middle p q, rfl, (left_lt_middle hx).le⟩
    · intro b hb
      obtain ⟨m, hm, hle⟩ := ih b hb
      exact ⟨m, hm, hx.le.trans hle⟩

theorem startsBefore (h : Through p s ps bands) {m : K} (hm : m ≤ p.x) (hi : Exact K)
    (f : Curve (Exact K)) : ∀ b ∈ bands, Band.startsBefore ⟨value m, hi, f⟩ b := by
  intro b hb
  obtain ⟨n, hn, hle⟩ := h.min_ge b hb
  rw [Band.startsBefore, hn, Exact.totalLE_value, decide_eq_true_eq]
  exact hm.trans hle

theorem pairwise (h : Through p s ps bands) : bands.Pairwise (·.startsBefore ·) := by
  induction h with
  | last => exact .nil
  | span hx _ _ h ih =>
    refine List.pairwise_cons.2 ⟨?_, List.pairwise_cons.2 ⟨?_, ih⟩⟩
    · intro b hb
      rcases List.mem_cons.1 hb with rfl | hb
      · exact decide_eq_true (left_lt_middle hx).le
      · exact h.startsBefore hx.le _ _ b hb
    · exact h.startsBefore (middle_lt_right hx).le _ _

end Through

variable [IsStrictOrderedRing K]

theorem exists_slope (options : Options) {q r : ControlPoint K} (hpq : p.x < q.x)
    (hqr : q.x < r.x) :
    ∃ d, (q.map value).slope?.getD
        (innerSlope options (p.map value) (q.map value) (r.map value)) = value d ∧
      Agrees d q.slope? := by
  cases hq : q.slope? with
  | none =>
    refine ⟨innerRise options p q r, ?_, nofun⟩
    rw [ControlPoint.map, hq]
    exact innerSlope_eq options hpq hqr
  | some d =>
    refine ⟨d, ?_, fun _ h => Option.some.inj h⟩
    rw [ControlPoint.map, hq]
    rfl

/-- Spans between points in ascending order lead through them, from a slope that agrees with the
first one given. -/
theorem exists_through (options : Options) (begin? : Option K)
    (h : (p :: ps).Pairwise (fun p q => p.x < q.x)) :
    ∃ s bands, Agrees s begin? ∧
      spans (p.map value :: ps.map (ControlPoint.map value))
        (begin?.map value :: slopesAfter options (p.map value) (ps.map (ControlPoint.map value))) =
          bands ∧
      Through p s ps bands := by
  induction ps generalizing p begin? with
  | nil => exact ⟨begin?.getD 0, [], fun d hd => by rw [hd]; rfl, rfl, .last⟩
  | cons q ps ih =>
    obtain ⟨hp, hq⟩ := List.pairwise_cons.1 h
    have hpq := hp q List.mem_cons_self
    cases ps with
    | nil =>
      obtain ⟨b, m, e, hs, hmean, hb, he⟩ := span_value hpq begin? q.slope?
      refine ⟨b, _, hb, ?_, .span hpq hmean he .last⟩
      exact (List.append_nil _).trans hs
    | cons r ps =>
      have hqr := (List.pairwise_cons.1 hq).1 r List.mem_cons_self
      obtain ⟨d, hd, hq'⟩ := exists_slope options hpq hqr
      obtain ⟨t, bands, ht, hspans, hthrough⟩ := ih (some d) hq
      obtain ⟨b, m, e, hs, hmean, hb, he⟩ := span_value hpq begin? (some d)
      obtain rfl : t = d := ht d rfl
      obtain rfl : e = t := he t rfl
      refine ⟨b, _, hb, ?_, .span hpq hmean hq' hthrough⟩
      rw [List.map_cons] at hspans
      rw [List.map_cons, List.map_cons, slopesAfter, hd, spans]
      change span _ _ _ ((some e).map value) ++ _ = _
      rw [hs]
      exact congrArg (_ :: _ :: ·) hspans

theorem Through.interpolates (h : Through p s ps bands) (hps : ps ≠ [])
    (hp : Agrees s p.slope?) : Interpolates bands (p :: ps) := by
  have hpasses : ∀ q ∈ p :: ps, Passes bands q :=
    List.forall_mem_cons.2 ⟨h.passes_first hps hp, h.passes⟩
  refine ⟨h.length_eq, h.ranges_eq, ?_, fun q hq => (hpasses q hq).eval_eq,
    fun q hq d hd => (hpasses q hq).slope_eq hd, h.isChain_joined⟩
  intro x
  rw [Curve.isValue_eval_iff h.isTotal, h.covers_iff]
  constructor
  · rintro ⟨a, rfl, hle, q, hq, hge⟩
    exact ⟨a, rfl, ⟨p, List.mem_cons_self, hle⟩, q, List.mem_cons_of_mem _ hq, hge⟩
  · rintro ⟨a, rfl, ⟨r, hr, hle⟩, q, hq, hge⟩
    refine ⟨a, rfl, ?_, ?_⟩
    · rcases List.mem_cons.1 hr with rfl | hr
      · exact hle
      · exact (h.lt r hr).le.trans hle
    · rcases List.mem_cons.1 hq with rfl | hq
      · obtain ⟨q', hq'⟩ := List.exists_mem_of_ne_nil ps hps
        exact ⟨q', hq', hge.trans (h.lt q' hq').le⟩
      · exact ⟨q, hq, hge⟩

theorem exists_sorted_through (options : Options) (points : List (ControlPoint K))
    (hn : 2 ≤ points.length) (hx : (points.map (·.x)).Nodup) :
    ∃ p ps s bands, (p :: ps).Perm points ∧ (p :: ps).Pairwise (fun p q => p.x < q.x) ∧
      ps ≠ [] ∧ Agrees s p.slope? ∧
      Curve.spline options (points.map (ControlPoint.map value)) = piecewise bands ∧
      Through p s ps bands := by
  obtain ⟨sorted, hperm, hlt, hsort⟩ := sortPoints_map points hx
  have hlen := hperm.length_eq
  cases sorted with
  | nil => simp [← hlen] at hn
  | cons p ps =>
    have hps : ps ≠ [] := by
      rintro rfl
      simp [← hlen] at hn
    obtain ⟨s, bands, hs, hspans, h⟩ := exists_through options p.slope? hlt
    refine ⟨p, ps, s, bands, hperm, hlt, hps, hs, ?_, h⟩
    rw [Curve.spline, Spline.bands, hsort, List.map_cons]
    change piecewise (Bands.ofList (spans _ (p.slope?.map value :: _))) = _
    rw [hspans, Bands.ofList, List.mergeSort_of_pairwise h.pairwise]

/-- The spline through two or more control points with different positions tiles their range,
takes their values and prescribed slopes, and has a continuous slope. -/
theorem spline_interpolates (options : Options) (points : List (ControlPoint K))
    (hn : 2 ≤ points.length) (hx : (points.map (·.x)).Nodup) :
    ∃ sorted bands, sorted.Perm points ∧ sorted.Pairwise (fun p q => p.x < q.x) ∧
      Curve.spline options (points.map (ControlPoint.map value)) = piecewise bands ∧
      Interpolates bands sorted := by
  obtain ⟨p, ps, s, bands, hperm, hlt, hps, hs, hspline, h⟩ :=
    exists_sorted_through options points hn hx
  exact ⟨p :: ps, bands, hperm, hlt, hspline, h.interpolates hps hs⟩

def peak : List (ControlPoint ℝ) :=
  [⟨1, 0, some (-1)⟩, ⟨-1, 0, none⟩, ⟨0, 1, none⟩]

theorem spline_interpolates_peak :
    2 ≤ peak.length ∧ (peak.map (·.x)).Nodup ∧
      ∃ sorted bands, sorted.Perm peak ∧ sorted.Pairwise (fun p q => p.x < q.x) ∧
        Curve.spline ⟨true, true⟩ (peak.map (ControlPoint.map value)) = piecewise bands ∧
        Interpolates bands sorted := by
  have hn : 2 ≤ peak.length := Nat.le_succ 2
  have hx : (peak.map (·.x)).Nodup := by norm_num [peak]
  exact ⟨hn, hx, spline_interpolates ⟨true, true⟩ peak hn hx⟩

end Curves.Spline
