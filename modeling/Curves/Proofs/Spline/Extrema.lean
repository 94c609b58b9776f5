import Curves.Proofs.Spline.Neighbours

namespace Curves

universe u

variable {K : Type u} [Field K] [LinearOrder K]

open Exact (value)

def Near (x : K) (P : K → Prop) : Prop :=
  ∃ ε > 0, ∀ a, |a - x| < ε → P a

/-- Two parabolas that touch the axis at `x`, one on each side. -/
def bent (w v x a : K) : K :=
  if a ≤ x then w * ((a - x) * (a - x)) else v * ((a - x) * (a - x))

section Near

variable {w v x δ : K} {P Q : K → Prop}

theorem Near.congr (hδ : 0 < δ) (h : ∀ a, |a - x| < δ → (P a ↔ Q a)) : Near x P ↔ Near x Q := by
  constructor
  · rintro ⟨ε, hε, hP⟩
    refine ⟨min ε δ, lt_min hε hδ, ?_⟩
    intro a ha
    exact (h a (ha.trans_le (min_le_right _ _))).1 (hP a (ha.trans_le (min_le_left _ _)))
  · rintro ⟨ε, hε, hQ⟩
    refine ⟨min ε δ, lt_min hε hδ, ?_⟩
    intro a ha
    exact (h a (ha.trans_le (min_le_right _ _))).2 (hQ a (ha.trans_le (min_le_left _ _)))

theorem bent_neg (w v x a : K) : bent (-w) (-v) x a = -bent w v x a := by
  rw [bent, bent, neg_mul, neg_mul, neg_ite]

theorem bent_self (w v x : K) : bent w v x x = 0 := by
  rw [bent, if_pos le_rfl, sub_self, mul_zero, mul_zero]

variable [IsStrictOrderedRing K]

theorem near_bent_nonpos_iff : Near x (fun a => bent w v x a ≤ 0) ↔ w ≤ 0 ∧ v ≤ 0 := by
  constructor
  · rintro ⟨ε, hε, h⟩
    have hpos : 0 < ε / 2 := half_pos hε
    have hclose : |ε / 2| < ε := by
      rw [abs_of_pos hpos]
      exact half_lt_self hε
    constructor
    · have hleft : bent w v x (x - ε / 2) ≤ 0 := h _ (by rwa [sub_sub_cancel_left, abs_neg])
      rw [bent, if_pos (sub_le_self x hpos.le), sub_sub_cancel_left, neg_mul_neg] at hleft
      exact nonpos_of_mul_nonpos_left hleft (mul_pos hpos hpos)
    · have hright : bent w v x (x + ε / 2) ≤ 0 := h _ (by rwa [add_sub_cancel_left])
      rw [bent, if_neg (lt_add_of_pos_right x hpos).not_ge, add_sub_cancel_left] at hright
      exact nonpos_of_mul_nonpos_left hright (mul_pos hpos hpos)
  · rintro ⟨hw, hv⟩
    refine ⟨1, one_pos, ?_⟩
    intro a _
    rw [bent]
    split_ifs
    · exact mul_nonpos_of_nonpos_of_nonneg hw (mul_self_nonneg _)
    · exact mul_nonpos_of_nonpos_of_nonneg hv (mul_self_nonneg _)

theorem near_bent_nonneg_iff : Near x (fun a => 0 ≤ bent w v x a) ↔ 0 ≤ w ∧ 0 ≤ v := by
  have h : Near x (fun a => bent (-w) (-v) x a ≤ 0) ↔ -w ≤ 0 ∧ -v ≤ 0 := near_bent_nonpos_iff
  simpa only [bent_neg, neg_nonpos] using h

end Near

namespace Curve

variable [Elementary K]

/-- Near the point, the curve is defined and nowhere above it. -/
def IsPeak (f : Curve (Exact K)) (x : K) : Prop :=
  Near x fun a => f.eval (value a) ≤ f.eval (value x)

def IsValley (f : Curve (Exact K)) (x : K) : Prop :=
  Near x fun a => f.eval (value x) ≤ f.eval (value a)

variable [IsStrictOrderedRing K] {f : Curve (Exact K)} {w v x y δ : K}

theorem isPeak_iff (hδ : 0 < δ)
    (h : ∀ a, |a - x| < δ → f.eval (value a) = value (y + bent w v x a)) :
    f.IsPeak x ↔ w ≤ 0 ∧ v ≤ 0 := by
  have hx : f.eval (value x) = value y := by
    rw [h x (by rwa [sub_self, abs_zero]), bent_self, add_zero]
  rw [← near_bent_nonpos_iff (x := x), IsPeak]
  apply Near.congr hδ
  intro a ha
  rw [h a ha, hx, Exact.value_le, add_le_iff_nonpos_right]

theorem isValley_iff (hδ : 0 < δ)
    (h : ∀ a, |a - x| < δ → f.eval (value a) = value (y + bent w v x a)) :
    f.IsValley x ↔ 0 ≤ w ∧ 0 ≤ v := by
  have hx : f.eval (value x) = value y := by
    rw [h x (by rwa [sub_self, abs_zero]), bent_self, add_zero]
  rw [← near_bent_nonneg_iff (x := x), IsValley]
  apply Near.congr hδ
  intro a ha
  rw [h a ha, hx, Exact.value_le, le_add_iff_nonneg_right]

end Curve

namespace Spline

variable [Elementary K] {options : Options} {o? r? : Option (ControlPoint K)}
  {q n o : ControlPoint K} {a : K}

/-- The curvature of a half that is flat at `q`, halved. -/
def bend (options : Options) (q n : ControlPoint K) (o? : Option (ControlPoint K)) : K :=
  (halfSlopes (rise q n) (some 0) (slopeBetween (innerRise options) (some q) n o?)).2 / (n.x - q.x)

omit [LinearOrder K] [Elementary K] in
theorem halfSlopes_some (i s : K) (e? : Option K) : (halfSlopes i (some s) e?).1 = s := by
  cases e? <;> rfl

variable [IsStrictOrderedRing K]

theorem eval_towards_flat (hq : slopeBetween (innerRise options) r? q (some n) = some 0) :
    (towards options r? q n o?).eval (value a) =
      value (q.y + bend options q n o? * ((a - q.x) * (a - q.x))) := by
  have hmiddle : 2 * (middle q n - q.x) = n.x - q.x := by
    rw [middle]
    ring
  rw [towards, slopesTowards, hq, eval_half, halfSlopes_some, hmiddle, sub_zero, add_zero, ← bend,
    mul_assoc, add_comm]

omit [Elementary K] in
theorem rise_mul_rise_neg (hx : 0 < (n.x - q.x) * (o.x - n.x)) (h : IsExtremum q.y n.y o.y) :
    rise q n * rise n o < 0 := by
  rw [rise, rise, div_mul_div_comm]
  apply div_neg_of_neg_of_pos _ hx
  rcases h with ⟨hq, ho⟩ | ⟨hq, ho⟩
  · exact mul_neg_of_pos_of_neg (sub_pos.2 hq) (sub_neg.2 ho)
  · exact mul_neg_of_neg_of_pos (sub_neg.2 hq) (sub_pos.2 ho)

/-- The half bends towards its other end unless the secant beyond that is more than seven times as
steep as its own. -/
theorem bend_mul_nonneg_iff (hn : n.slope? = none) (hy : rise q n ≠ 0)
    (hx : ∀ o ∈ o?, 0 < (n.x - q.x) * (o.x - n.x)) :
    0 ≤ bend ⟨true, false⟩ q n o? * (n.y - q.y) ↔ ∀ o ∈ o?, rise n o / rise q n ≤ 7 := by
  have hbend : bend ⟨true, false⟩ q n o? * (n.y - q.y) =
      (halfSlopes (rise q n) (some 0)
        (slopeBetween (innerRise ⟨true, false⟩) (some q) n o?)).2 * rise q n := by
    rw [bend, rise, div_mul_eq_mul_div, mul_div_assoc]
  have hsq : 0 < rise q n * rise q n := mul_self_pos.2 hy
  rw [hbend, slopeBetween, hn]
  cases o? with
  | none =>
    constructor
    · exact fun _ o ho => absurd ho (Option.not_mem_none o)
    · exact fun _ => hsq.le
  | some o =>
    have hratio : rise n o / rise q n = rise q n * rise n o / (rise q n * rise q n) :=
      (mul_div_mul_left _ _ hy).symm
    simp only [Option.mem_some_iff, forall_eq']
    change 0 ≤ (rise q n + rise q n - (0 + innerRise ⟨true, false⟩ q n o) / (1 + 1)) * rise q n ↔ _
    rw [innerRise_of_mean rfl]
    by_cases he : IsExtremum q.y n.y o.y
    · have hneg := rise_mul_rise_neg (hx o rfl) he
      rw [if_pos ⟨rfl, he⟩, hratio]
      constructor
      · intro _
        exact (div_neg_of_neg_of_pos hneg hsq).le.trans (by norm_num)
      · intro _
        linarith
    · rw [if_neg (fun h => he h.2), hratio, div_le_iff₀ hsq]
      constructor
      · intro h
        linarith
      · intro h
        linarith

section Extremum

variable {sorted points before after : List (ControlPoint K)} {p r : ControlPoint K}

theorem Beside.bend_mul_nonneg_iff (h : Beside sorted r? q n o?)
    (hlt : sorted.Pairwise fun p q => p.x < q.x) (hn : n.slope? = none) (hy : n.y ≠ q.y) :
    0 ≤ bend ⟨true, false⟩ q n o? * (n.y - q.y) ↔ ∀ o ∈ o?, rise n o / rise q n ≤ 7 := by
  rcases h with h | h
  · obtain ⟨-, hqn, hno⟩ := h.related hlt
    apply Spline.bend_mul_nonneg_iff hn
    · exact div_ne_zero (sub_ne_zero.2 hy) (sub_pos.2 hqn).ne'
    · exact fun o ho => mul_pos (sub_pos.2 hqn) (sub_pos.2 (hno o ho))
  · obtain ⟨hon, hnq, -⟩ := h.related hlt
    apply Spline.bend_mul_nonneg_iff hn
    · exact div_ne_zero (sub_ne_zero.2 hy) (sub_neg.2 hnq).ne
    · exact fun o ho => mul_pos_of_neg_of_neg (sub_neg.2 hnq) (sub_neg.2 (hon o ho))

omit [IsStrictOrderedRing K] in
theorem slopeBetween_extremum (hq : q.slope? = none) (h : IsExtremum p.y q.y r.y) :
    slopeBetween (innerRise ⟨true, false⟩) (some p) q (some r) = some 0 := by
  rw [slopeBetween, hq]
  exact congrArg some (if_pos ⟨rfl, h⟩)

theorem Arranges.slope_eq_zero (h : Arranges (before ++ p :: q :: r :: after) points)
    (hq : slopeBetween (innerRise options) (some p) q (some r) = some 0) :
    (Curve.spline options (points.map (ControlPoint.map value))).slope (value q.x) = value 0 := by
  rw [h.slope_eq options (.inl (neighbours_append_cons ..)) Set.left_mem_uIcc, towards,
    slope_half_anchor, slopesTowards, hq, halfSlopes_some]

/-- Around a control point with the slope zero, the spline bends to both sides from there. -/
theorem Arranges.eval_near (h : Arranges (before ++ p :: q :: r :: after) points)
    (hq : slopeBetween (innerRise options) (some p) q (some r) = some 0) :
    ∃ δ > 0, ∀ a, |a - q.x| < δ →
      (Curve.spline options (points.map (ControlPoint.map value))).eval (value a) =
        value (q.y +
          bent (bend options q p before.getLast?) (bend options q r after.head?) q.x a) := by
  have hleft : Neighbours (before ++ p :: q :: r :: after) before.getLast? p q (some r) :=
    neighbours_append before (r :: after) p q
  have hright := neighbours_append_cons before after p q r
  have hp := middle_lt_right (hleft.related h.ascending).2.1
  have hr := left_lt_middle (hright.related h.ascending).2.1
  have hq' : slopeBetween (innerRise options) (some r) q (some p) = some 0 := by
    rw [← hq, slopeBetween_comm (innerRise_comm options)]
  refine ⟨min (q.x - middle p q) (middle q r - q.x), lt_min (sub_pos.2 hp) (sub_pos.2 hr), ?_⟩
  intro a ha
  obtain ⟨hlo, hhi⟩ := abs_lt.1 ha
  rw [bent]
  split_ifs with hside
  · have hmem : a ∈ Set.uIcc q.x (middle q p) := by
      rw [middle_comm, Set.uIcc_of_ge hp.le]
      have hmin := min_le_left (q.x - middle p q) (middle q r - q.x)
      constructor
      · linarith
      · exact hside
    rw [h.eval_eq options (.inr hleft) hmem, eval_towards_flat hq']
  · have hmem : a ∈ Set.uIcc q.x (middle q r) := by
      rw [Set.uIcc_of_le hr.le]
      have hmin := min_le_right (q.x - middle p q) (middle q r - q.x)
      constructor
      · exact (not_le.1 hside).le
      · linarith
    rw [h.eval_eq options (.inl hright) hmem, eval_towards_flat hq]

theorem Arranges.bends_iff (h : Arranges (before ++ p :: q :: r :: after) points)
    (hslope : ∀ p ∈ points, p.slope? = none) (hp : p.y ≠ q.y) (hr : r.y ≠ q.y) :
    0 ≤ bend ⟨true, false⟩ q p before.getLast? * (p.y - q.y) ∧
        0 ≤ bend ⟨true, false⟩ q r after.head? * (r.y - q.y) ↔
      (∀ o ∈ before.getLast?, rise o p / rise p q ≤ 7) ∧
        ∀ s ∈ after.head?, rise r s / rise q r ≤ 7 := by
  have hnone (n : ControlPoint K) (hn : n ∈ before ++ p :: q :: r :: after) : n.slope? = none :=
    hslope n (h.perm.subset hn)
  have hleft : Beside (before ++ p :: q :: r :: after) (some r) q p before.getLast? :=
    .inr (neighbours_append before (r :: after) p q)
  have hright : Beside (before ++ p :: q :: r :: after) (some p) q r after.head? :=
    .inl (neighbours_append_cons before after p q r)
  rw [hleft.bend_mul_nonneg_iff h.ascending (hnone p (by simp)) hp,
    hright.bend_mul_nonneg_iff h.ascending (hnone r (by simp)) hr]
  have hratio (o : ControlPoint K) : rise p o / rise q p = rise o p / rise p q := by
    rw [rise_comm p o, rise_comm q p]
  simp only [hratio]

theorem Arranges.isPeak_iff (h : Arranges (before ++ p :: q :: r :: after) points)
    (hslope : ∀ p ∈ points, p.slope? = none) (hp : p.y < q.y) (hr : r.y < q.y) :
    (Curve.spline ⟨true, false⟩ (points.map (ControlPoint.map value))).IsPeak q.x ↔
      (∀ o ∈ before.getLast?, rise o p / rise p q ≤ 7) ∧
        ∀ s ∈ after.head?, rise r s / rise q r ≤ 7 := by
  have hq : q.slope? = none := hslope q (h.perm.subset (by simp))
  obtain ⟨δ, hδ, hnear⟩ := h.eval_near (slopeBetween_extremum hq (.inl ⟨hp, hr⟩))
  have hneg {w y : K} (hy : y < q.y) : w ≤ 0 ↔ 0 ≤ w * (y - q.y) := by
    constructor
    · exact fun hw => mul_nonneg_of_nonpos_of_nonpos hw (sub_neg.2 hy).le
    · exact fun hw => nonpos_of_mul_nonneg_left hw (sub_neg.2 hy)
  rw [Curve.isPeak_iff hδ hnear, ← h.bends_iff hslope hp.ne hr.ne]
  exact and_congr (hneg hp) (hneg hr)

theorem Arranges.isValley_iff (h : Arranges (before ++ p :: q :: r :: after) points)
    (hslope : ∀ p ∈ points, p.slope? = none) (hp : q.y < p.y) (hr : q.y < r.y) :
    (Curve.spline ⟨true, false⟩ (points.map (ControlPoint.map value))).IsValley q.x ↔
      (∀ o ∈ before.getLast?, rise o p / rise p q ≤ 7) ∧
        ∀ s ∈ after.head?, rise r s / rise q r ≤ 7 := by
  have hq : q.slope? = none := hslope q (h.perm.subset (by simp))
  obtain ⟨δ, hδ, hnear⟩ := h.eval_near (slopeBetween_extremum hq (.inr ⟨hp, hr⟩))
  have hpos {w y : K} (hy : q.y < y) : 0 ≤ w ↔ 0 ≤ w * (y - q.y) :=
    (mul_nonneg_iff_of_pos_right (sub_pos.2 hy)).symm
  rw [Curve.isValley_iff hδ hnear, ← h.bends_iff hslope hp.ne' hr.ne']
  exact and_congr (hpos hp) (hpos hr)

/-- Where extrema are preserved, a control point above or below both its neighbours gets the slope
zero; it is an extremum of the spline if and only if the secants beyond the neighbours are not more
than seven times as steep, in the same direction, as those at the point. -/
theorem extremum_iff_secants (h : Arranges (before ++ p :: q :: r :: after) points)
    (hslope : ∀ p ∈ points, p.slope? = none) :
    (p.y < q.y → r.y < q.y →
      (Curve.spline ⟨true, false⟩ (points.map (ControlPoint.map value))).slope (value q.x) =
          value 0 ∧
        ((Curve.spline ⟨true, false⟩ (points.map (ControlPoint.map value))).IsPeak q.x ↔
          (∀ o ∈ before.getLast?, rise o p / rise p q ≤ 7) ∧
            ∀ s ∈ after.head?, rise r s / rise q r ≤ 7)) ∧
      (q.y < p.y → q.y < r.y →
        (Curve.spline ⟨true, false⟩ (points.map (ControlPoint.map value))).slope (value q.x) =
            value 0 ∧
          ((Curve.spline ⟨true, false⟩ (points.map (ControlPoint.map value))).IsValley q.x ↔
            (∀ o ∈ before.getLast?, rise o p / rise p q ≤ 7) ∧
              ∀ s ∈ after.head?, rise r s / rise q r ≤ 7)) := by
  have hq : q.slope? = none := hslope q (h.perm.subset (by simp))
  constructor
  · intro hp hr
    constructor
    · exact h.slope_eq_zero (slopeBetween_extremum hq (.inl ⟨hp, hr⟩))
    · exact h.isPeak_iff hslope hp hr
  · intro hp hr
    constructor
    · exact h.slope_eq_zero (slopeBetween_extremum hq (.inr ⟨hp, hr⟩))
    · exact h.isValley_iff hslope hp hr

end Extremum

/-- A hill at 1, and one more point on its right. -/
def ridge (x y : ℝ) : List (ControlPoint ℝ) :=
  [⟨0, 0, none⟩, ⟨1, 1, none⟩, ⟨1 + 1, 0, none⟩, ⟨x, y, none⟩]

theorem arranges_ridge {x : ℝ} (hx : 1 + 1 < x) (y : ℝ) :
    Arranges ([] ++ ⟨0, 0, none⟩ :: ⟨1, 1, none⟩ :: ⟨1 + 1, 0, none⟩ :: [⟨x, y, none⟩])
      (ridge x y) := by
  constructor
  · exact .refl _
  · have hone : (1 : ℝ) < x := (lt_add_one 1).trans hx
    have hzero : (0 : ℝ) < x := one_pos.trans hone
    have htwo : (2 : ℝ) < x := one_add_one_eq_two (R := ℝ) ▸ hx
    simp [hzero, hone, htwo, one_add_one_eq_two]

theorem slope?_ridge (x y : ℝ) : ∀ p ∈ ridge x y, p.slope? = none := by
  simp [ridge]

theorem extremum_iff_secants_ridge :
    Arranges (ridge 3 (-7)) (ridge 3 (-7)) ∧ (∀ p ∈ ridge 3 (-7), p.slope? = none) ∧
      (Curve.spline ⟨true, false⟩ ((ridge 3 (-7)).map (ControlPoint.map value))).IsPeak 1 := by
  have hx : (1 : ℝ) + 1 < 3 := by norm_num
  have harranges := arranges_ridge hx (-7)
  have hslope := slope?_ridge 3 (-7)
  have hpeak := (extremum_iff_secants harranges hslope).1 one_pos one_pos
  refine ⟨harranges, hslope, hpeak.2.2 ⟨?_, ?_⟩⟩
  · intro o ho
    exact absurd ho (Option.not_mem_none o)
  · intro s hs
    cases hs
    norm_num [rise]

/-- Where the fall beyond it gets eight times as steep, the spline first rises above the hill. -/
theorem not_isPeak_ridge :
    ((ridge 3 (-8)).map (·.x)).Nodup ∧ (∀ p ∈ ridge 3 (-8), p.slope? = none) ∧
      ¬(Curve.spline ⟨true, false⟩ ((ridge 3 (-8)).map (ControlPoint.map value))).IsPeak 1 := by
  have hx : (1 : ℝ) + 1 < 3 := by norm_num
  have harranges := arranges_ridge hx (-8)
  have hslope := slope?_ridge 3 (-8)
  refine ⟨harranges.nodup, hslope, ?_⟩
  intro hpeak
  have hsecants := ((harranges.isPeak_iff hslope one_pos one_pos).1 hpeak).2 _ rfl
  norm_num [rise] at hsecants

end Spline
end Curves
