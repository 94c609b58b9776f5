import Curves.Proofs.Spline.Neighbours

open scoped Polynomial

namespace Curves.Spline

universe u

open Exact (value)

variable {K : Type u} [Field K]

def sample (q : K[X]) (x : K) : ControlPoint K :=
  ⟨x, q.eval x, none⟩

/-- Positions from `a` on, at the distance `w`. -/
def grid (a w : K) (n : Nat) : List K :=
  (List.range n).map fun i : Nat => a + i * w

section Grid

variable {a w : K} {n : Nat}

theorem length_grid : (grid a w n).length = n := by
  rw [grid, List.length_map, List.length_range]

theorem mem_grid {i : Nat} (hi : i < n) : a + i * w ∈ grid a w n :=
  List.mem_map_of_mem (List.mem_range.2 hi)

theorem isChain_grid : (grid a w n).IsChain fun x y => y = x + w := by
  rw [grid, List.isChain_map, List.isChain_range]
  intro i _
  push_cast
  ring

theorem Beside.exists_step {xs : List K} {o? r? : Option K} {x y : K} (h : Beside xs o? x y r?)
    (hxs : xs.IsChain fun x y => y = x + w) (hw : w ≠ 0) :
    ∃ d ≠ 0, (∀ o ∈ o?, x = o + d) ∧ y = x + d ∧ ∀ r ∈ r?, r = y + d := by
  rcases h with h | h
  · exact ⟨w, hw, h.related_of_isChain hxs⟩
  · obtain ⟨hr, hxy, ho⟩ := h.related_of_isChain hxs
    refine ⟨-w, neg_ne_zero.2 hw, ?_, eq_add_neg_of_add_eq hxy.symm, ?_⟩
    · intro o hmem
      exact eq_add_neg_of_add_eq (ho o hmem).symm
    · intro r hmem
      exact eq_add_neg_of_add_eq (hr r hmem).symm

end Grid

section Differences

variable {q : K[X]} {o x y m d : K} (hq : q.natDegree ≤ 2)

include hq

theorem exists_coefficients : ∃ a b c : K, (∀ x, q.eval x = a * (x * x) + b * x + c) ∧
    ∀ x, q.derivative.eval x = a * (x + x) + b := by
  obtain ⟨a, b, c, rfl⟩ : ∃ a b c : K,
      q = Polynomial.C a * Polynomial.X ^ 2 + Polynomial.C b * Polynomial.X + Polynomial.C c :=
    ⟨_, _, _, Polynomial.eq_quadratic_of_degree_le_two (Polynomial.degree_le_of_natDegree_le hq)⟩
  refine ⟨a, b, c, ?_, ?_⟩
  · intro x
    simp [pow_two]
  · intro x
    simp [pow_two]

variable [LinearOrder K] [IsStrictOrderedRing K]

theorem derivative_middle : q.derivative.eval (middle (sample q x) (sample q y)) =
    (q.derivative.eval x + q.derivative.eval y) / 2 := by
  obtain ⟨a, b, c, -, hslope⟩ := exists_coefficients hq
  simp only [middle, sample, hslope]
  field_simp
  ring

theorem rise_sample (h : x ≠ y) :
    rise (sample q x) (sample q y) = q.derivative.eval (middle (sample q x) (sample q y)) := by
  obtain ⟨a, b, c, hvalue, hslope⟩ := exists_coefficients hq
  have hxy : y - x ≠ 0 := sub_ne_zero.2 h.symm
  simp only [rise, middle, sample, hvalue, hslope]
  field_simp
  ring

theorem curvature_sample (h : x ≠ y) :
    ∃ c, (∀ z, q.eval z = (c * (z - x) + q.derivative.eval x) * (z - x) + q.eval x) ∧
      (∀ z, q.derivative.eval z = 2 * c * (z - x) + q.derivative.eval x) ∧
      (q.derivative.eval y - q.derivative.eval x) / (2 * (y - x)) = c := by
  obtain ⟨a, b, c, hvalue, hslope⟩ := exists_coefficients hq
  have hxy : y - x ≠ 0 := sub_ne_zero.2 h.symm
  refine ⟨a, ?_, ?_, ?_⟩
  · intro z
    rw [hvalue, hvalue, hslope]
    ring
  · intro z
    rw [hslope, hslope]
    ring
  · rw [hslope, hslope]
    field_simp
    ring

variable [Elementary K]

theorem eval_half_sample (h : x ≠ y) (z : K) :
    (half (sample q x) (q.derivative.eval x) y (q.derivative.eval y)).eval (value z) =
      value (q.eval z) := by
  obtain ⟨c, hvalue, -, hc⟩ := curvature_sample hq h
  rw [eval_half, hvalue z, ← hc]
  rfl

theorem slope_half_sample (h : x ≠ y) (z : K) :
    (half (sample q x) (q.derivative.eval x) y (q.derivative.eval y)).slope (value z) =
      value (q.derivative.eval z) := by
  obtain ⟨c, -, hslope, hc⟩ := curvature_sample hq h
  rw [slope_half, hslope z, ← hc]
  rfl

theorem innerRise_sample (hd : d ≠ 0) (hx : x = o + d) (hy : y = x + d) :
    innerRise ⟨false, false⟩ (sample q o) (sample q x) (sample q y) = q.derivative.eval x := by
  have hox : o ≠ x := by
    rw [hx]
    exact left_ne_add.2 hd
  have hxy : x ≠ y := by
    rw [hy]
    exact left_ne_add.2 hd
  obtain ⟨a, b, c, -, hslope⟩ := exists_coefficients hq
  rw [innerRise_of_mean rfl, if_neg (fun h => Bool.false_ne_true h.1), rise_sample hq hox,
    rise_sample hq hxy, derivative_middle hq, derivative_middle hq, hslope, hslope, hslope, hy, hx]
  ring

theorem slopeBetween_sample (o? y? : Option K) (hd : d ≠ 0) (ho : ∀ o ∈ o?, x = o + d)
    (hy : ∀ y ∈ y?, y = x + d) :
    slopeBetween (innerRise ⟨false, false⟩) (o?.map (sample q)) (sample q x)
        (y?.map (sample q)) =
      o?.bind fun _ => y?.map fun _ => q.derivative.eval x := by
  cases o? with
  | none => rfl
  | some o =>
    cases y? with
    | none => rfl
    | some y => exact congrArg some (innerRise_sample hq hd (ho o rfl) (hy y rfl))

/-- With a point beyond one end of the span at least, the slopes are those of the quadratic. -/
theorem slopesTowards_sample {o? r? : Option K} (hd : d ≠ 0) (ho : ∀ o ∈ o?, x = o + d)
    (hy : y = x + d) (hr : ∀ r ∈ r?, r = y + d) (hne : ¬(o? = none ∧ r? = none)) :
    slopesTowards ⟨false, false⟩ (o?.map (sample q)) (sample q x) (sample q y)
        (r?.map (sample q)) =
      (q.derivative.eval x, q.derivative.eval (middle (sample q x) (sample q y))) := by
  have hxy : x ≠ y := by
    rw [hy]
    exact left_ne_add.2 hd
  have hbegin := slopeBetween_sample hq o? (some y) hd ho fun _ h => Option.some.inj h ▸ hy
  have hend := slopeBetween_sample hq (some x) r? hd (fun _ h => Option.some.inj h ▸ hy) hr
  rw [Option.map_some] at hbegin hend
  rw [slopesTowards, hbegin, hend, rise_sample hq hxy, derivative_middle hq]
  generalize q.derivative.eval x = s
  generalize q.derivative.eval y = e
  cases o? with
  | none =>
    cases r? with
    | none => exact absurd ⟨rfl, rfl⟩ hne
    | some r =>
      have hs : (s + e) / 2 + (s + e) / 2 - e = s := by ring
      exact congrArg (·, (s + e) / 2) hs
  | some o =>
    cases r? with
    | none => rfl
    | some r =>
      have hm : (s + e) / 2 + (s + e) / 2 - (s + e) / (1 + 1) = (s + e) / 2 := by ring
      exact congrArg (s, ·) hm

end Differences

variable [LinearOrder K] [IsStrictOrderedRing K] {q : K[X]} {a w : K} {n : Nat}
  {points : List (ControlPoint K)}

theorem arranges_grid (hw : 0 < w) (hpoints : points.Perm ((grid a w n).map (sample q))) :
    Arranges ((grid a w n).map (sample q)) points := by
  refine ⟨hpoints.symm, ?_⟩
  rw [grid, List.pairwise_map, List.pairwise_map]
  apply List.pairwise_lt_range.imp
  intro i k hik
  have hcast : (i : K) < k := Nat.cast_lt.2 hik
  exact add_lt_add_right (mul_lt_mul_of_pos_right hcast hw) a

theorem ne_middle_sample {x y : K} (h : x ≠ y) : x ≠ middle (sample q x) (sample q y) := by
  intro heq
  simp only [middle, sample] at heq
  apply h
  linear_combination 2 * heq

/-- The spline through points of a quadratic at even distances, given in any order, is the
quadratic, and has its slope, between the first point and the last. -/
theorem spline_of_quadratic [Elementary K] (hq : q.natDegree ≤ 2) (hn : 3 ≤ n) (hw : 0 < w)
    (hpoints : points.Perm ((grid a w n).map (sample q))) {x : K} (hlo : a ≤ x)
    (hhi : x ≤ a + (n - 1) * w) :
    (Curve.spline ⟨false, false⟩ (points.map (ControlPoint.map value))).eval (value x) =
        value (q.eval x) ∧
      (Curve.spline ⟨false, false⟩ (points.map (ControlPoint.map value))).slope (value x) =
        value (q.derivative.eval x) := by
  have h := arranges_grid hw hpoints
  have hmem {i : Nat} (hi : i < n) : sample q (a + i * w) ∈ points :=
    hpoints.mem_iff.2 (List.mem_map_of_mem (mem_grid hi))
  have hlen : 2 ≤ points.length := by
    rw [hpoints.length_eq, List.length_map, length_grid]
    omega
  have hfirst : (sample q (a + (0 : Nat) * w)).x ≤ x := by
    rw [sample, Nat.cast_zero, zero_mul, add_zero]
    exact hlo
  have hlast : x ≤ (sample q (a + (n - 1 : Nat) * w)).x := by
    rw [sample, Nat.cast_pred (by omega)]
    exact hhi
  have hvalue := h.isValue_eval ⟨false, false⟩ hlen (hmem (by omega)) (hmem (by omega)) hfirst hlast
  obtain ⟨_, ⟨⟩, o?, p, r, s?, hb, hx⟩ := (h.isValue_eval_iff ⟨false, false⟩ (value x)).1 hvalue
  obtain ⟨o?, y, z, s?, hgrid, rfl, rfl, rfl, rfl⟩ := hb.exists_of_map
  obtain ⟨d, hd, ho, hyz, hs⟩ := hgrid.exists_step isChain_grid hw.ne'
  have hne : ¬(o? = none ∧ s? = none) := by
    rintro ⟨rfl, rfl⟩
    have hpair := hgrid.length_eq_two
    rw [length_grid] at hpair
    omega
  have hslopes := slopesTowards_sample hq hd ho hyz hs hne
  have hmiddle : y ≠ middle (sample q y) (sample q z) := by
    apply ne_middle_sample
    rw [hyz]
    exact left_ne_add.2 hd
  rw [h.eval_eq _ hb hx, h.slope_eq _ hb hx, towards, hslopes]
  exact ⟨eval_half_sample hq hmiddle x, slope_half_sample hq hmiddle x⟩

noncomputable def squares : List (ControlPoint ℝ) :=
  ((grid (-1) 1 4).map (sample (Polynomial.X ^ 2))).reverse

theorem spline_of_quadratic_squares :
    (Polynomial.X ^ 2 : ℝ[X]).natDegree ≤ 2 ∧
      squares.Perm ((grid (-1) 1 4).map (sample (Polynomial.X ^ 2))) ∧
      (Curve.spline ⟨false, false⟩ (squares.map (ControlPoint.map value))).eval (value (1 / 3)) =
        value (1 / 9) := by
  have hq : (Polynomial.X ^ 2 : ℝ[X]).natDegree ≤ 2 := Polynomial.natDegree_X_pow_le 2
  have hperm : squares.Perm ((grid (-1) 1 4).map (sample (Polynomial.X ^ 2))) :=
    List.reverse_perm _
  have hhi : (1 / 3 : ℝ) ≤ -1 + ((4 : Nat) - 1) * 1 := by norm_num
  have h := (spline_of_quadratic hq (by decide) one_pos hperm (by norm_num) hhi).1
  rw [Polynomial.eval_pow, Polynomial.eval_X] at h
  refine ⟨hq, hperm, ?_⟩
  rw [h]
  norm_num

end Curves.Spline
