import Curves.Proofs.Curve.Level
import Curves.Proofs.Spline.Interpolation

namespace Curves

universe u

variable {K : Type u} [Field K] [LinearOrder K] [Elementary K]

open Exact (value)
open Curves.Polynomial (BracketSolver)

namespace Curve

/-- The ends of a band, seen from outside the changes of axes around it. -/
inductive HasBand : Curve (Exact K) → K → K → Prop
  | band {lo hi f bands} (h : ⟨value lo, value hi, f⟩ ∈ bands) : HasBand (.piecewise bands) lo hi
  | affine {t f u w a b} (h : HasBand f u w) (ha : t.outer (value u) = value a)
      (hb : t.outer (value w) = value b) : HasBand (.affine t f) a b

/-- The list holds only points where the curve takes the value, and all of them but those inside
a band that takes it throughout and has both ends in the list. -/
structure LevelSet (f : Curve (Exact K)) (v : K) (rs : List K) : Prop where
  ascending : rs.Pairwise (· ≤ ·)
  sound : ∀ r ∈ rs, f.eval (value r) = value v
  complete : ∀ x, f.eval (value x) = value v → x ∈ rs ∨ ∃ a b, HasBand f a b ∧ a ∈ rs ∧ b ∈ rs ∧
    x ∈ Set.uIcc a b ∧ ∀ y ∈ Set.uIcc a b, f.eval (value y) = value v

def reported (rs : List K) : Option (List (Exact K)) :=
  if rs.isEmpty then none else some (rs.map value)

variable {f : Curve (Exact K)} {lo v r : K} {rs : List K}
  {b : Band (Exact K) (Curve (Exact K))} {bands : List (Band (Exact K) (Curve (Exact K)))}

theorem LevelSet.eq_nil_iff (h : LevelSet f v rs) :
    rs = [] ↔ ∀ x, f.eval (value x) ≠ value v := by
  constructor
  · rintro rfl x hx
    rcases h.complete x hx with hmem | ⟨a, b, -, hmem, -⟩
    · cases hmem
    · cases hmem
  · intro hne
    apply List.eq_nil_iff_forall_not_mem.2
    intro r hr
    exact hne r (h.sound r hr)

theorem Contiguous.eval_eq_of_contains (h : Contiguous lo bands)
    (hjoin : ∀ b c, [b, c] <:+: bands → b.body.eval c.min = c.body.eval c.min)
    (hb : b ∈ bands) (hr : b.contains (value r)) :
    (piecewise bands).eval (value r) = b.body.eval (value r) := by
  rcases h.eval_eq_or hb hr with heq | ⟨c, hc, hmin⟩
  · exact heq
  · rw [hmin, h.eval_min hc, hjoin c b hc]

theorem Contiguous.slope_eq_of_contains (h : Contiguous lo bands)
    (hjoin : ∀ b c, [b, c] <:+: bands → b.body.slope c.min = c.body.slope c.min)
    (hb : b ∈ bands) (hr : b.contains (value r)) :
    (piecewise bands).slope (value r) = b.body.slope (value r) := by
  rw [slope, slopeBands_eq]
  rcases h.at?_eq_or hb hr with hat | ⟨c, hc, hmin⟩
  · rw [hat]
  · rw [hmin, h.at?_min hc]
    exact hjoin c b hc

/-- What lies outside a change of axes is described by what lies inside. -/
theorem LevelSet.affine {t : Affine (Exact K)} {us : List K} {w : K} {e : K ≃ K}
    (ht : t.Translates e v w) (h : LevelSet f w us) :
    LevelSet (.affine t f) v ((us.map e.symm).mergeSort (· ≤ ·)) := by
  have hmem (x : K) : x ∈ (us.map e.symm).mergeSort (· ≤ ·) ↔ e x ∈ us := by
    rw [List.mem_mergeSort, List.mem_map]
    constructor
    · rintro ⟨u, hu, rfl⟩
      rwa [e.apply_symm_apply]
    · intro hx
      exact ⟨e x, hx, e.symm_apply_apply x⟩
  refine ⟨List.pairwise_mergeSort' _ _, ?_, ?_⟩
  · intro r hr
    exact (ht.eval_iff f r).2 (h.sound _ ((hmem r).1 hr))
  · intro x hx
    rcases h.complete (e x) ((ht.eval_iff f x).1 hx) with hu | ⟨a, b, hband, ha, hb, hx', hall⟩
    · exact .inl ((hmem x).2 hu)
    · refine .inr ⟨e.symm a, e.symm b, hband.affine (ht.outer a) (ht.outer b), ?_, ?_, ?_, ?_⟩
      · rwa [hmem, e.apply_symm_apply]
      · rwa [hmem, e.apply_symm_apply]
      · exact (ht.between x a b).2 hx'
      · intro y hy
        exact (ht.eval_iff f y).2 (hall (e y) ((ht.between y a b).1 hy))

theorem map_reported {t : Affine (Exact K)} {e : K ≃ K}
    (houter : ∀ u, t.outer (value u) = value (e.symm u)) (us : List K) :
    (reported us).map (fun us => (us.map t.outer).mergeSort Scalar.totalLE) =
      reported ((us.map e.symm).mergeSort (· ≤ ·)) := by
  cases us with
  | nil =>
    rw [List.map_nil, List.mergeSort_nil]
    rfl
  | cons u us =>
    have hne : ((u :: us).map e.symm).mergeSort (· ≤ ·) ≠ [] := by
      intro hnil
      have hlen : (((u :: us).map e.symm).mergeSort (· ≤ ·)).length = _ := List.length_mergeSort _
      rw [hnil] at hlen
      cases hlen
    rw [reported, reported, if_neg nofun, if_neg (mt List.isEmpty_iff.1 hne), Option.map_some,
      ← Exact.mergeSort_map_value, List.map_map, List.map_map]
    simp only [Function.comp_def, houter]

variable [IsStrictOrderedRing K]

theorem Wrapped.exists_levelSet {Q : Curve (Exact K) → Prop}
    {solver : BracketSolver (Exact K)}
    (hQ : ∀ f, Q f → ∀ v, ∃ rs, f.solveWith solver (value v) = .ok (reported rs) ∧ LevelSet f v rs)
    (h : Wrapped Affine.Invertible Q f) (v : K) :
    ∃ rs, f.solveWith solver (value v) = .ok (reported rs) ∧ LevelSet f v rs := by
  induction h generalizing v with
  | core hf => exact hQ _ hf v
  | affine ht _ ih =>
    obtain ⟨e, w, htrans⟩ := ht.exists_translates v
    obtain ⟨us, hus, hset⟩ := ih w
    rw [← htrans.innerValue] at hus
    refine ⟨_, ?_, hset.affine htrans⟩
    rw [solve_affine_ok hus, map_reported htrans.outer]

variable [LawfulRoot K]

theorem Contiguous.exists_levelSet (h : Contiguous lo bands)
    (hq : ∀ b ∈ bands, b.body.IsQuadratic)
    (hjoin : ∀ b c, [b, c] <:+: bands → b.body.eval c.min = c.body.eval c.min)
    (solver : BracketSolver (Exact K)) (v : K) :
    ∃ rs, (piecewise bands).solveWith solver (value v) = .ok (reported rs) ∧
      LevelSet (piecewise bands) v rs := by
  obtain ⟨rs, hrs, hasc, hmem⟩ := h.solveBands_ok hq solver v
  have hsolve : (piecewise bands).solveWith solver (value v) = .ok (reported rs) := by
    rw [solve_piecewise_ok hrs, List.isEmpty_map, reported]
  refine ⟨rs, hsolve, hasc, ?_, ?_⟩
  · intro r hr
    obtain ⟨b, hb, hcontains, hv, -⟩ := (hmem r).1 hr
    exact (h.eval_eq_of_contains hjoin hb hcontains).trans hv
  · intro x hx
    obtain ⟨b, hat, hv⟩ := exists_at?_of_eval hx
    obtain ⟨hb, hcontains⟩ := Bands.mem_of_at? hat
    by_cases hall : ∀ y, b.body.eval (value y) = value v
    · right
      obtain ⟨lo, hi, f, hlt, rfl⟩ := h.exists_ends hb
      have hlo : Reports ⟨value lo, value hi, f⟩ v lo :=
        ⟨contains_iff.2 ⟨le_rfl, hlt.le⟩, hall lo, fun _ => .inl rfl⟩
      have hhi : Reports ⟨value lo, value hi, f⟩ v hi :=
        ⟨contains_iff.2 ⟨hlt.le, le_rfl⟩, hall hi, fun _ => .inr rfl⟩
      refine ⟨lo, hi, .band hb, (hmem lo).2 ⟨_, hb, hlo⟩, (hmem hi).2 ⟨_, hb, hhi⟩, ?_, ?_⟩
      · rw [Set.uIcc_of_le hlt.le]
        exact contains_iff.1 hcontains
      · rw [Set.uIcc_of_le hlt.le]
        intro y hy
        exact (h.eval_eq_of_contains hjoin hb (contains_iff.2 hy)).trans (hall y)
    · left
      exact (hmem x).2 ⟨b, hb, hcontains, hv, fun h => absurd h hall⟩

end Curve

namespace Spline

open Curve (piecewise)

section Bands

variable {p : ControlPoint K} {s : K} {ps : List (ControlPoint K)}
  {bands : List (Band (Exact K) (Curve (Exact K)))}

omit [LinearOrder K] [Elementary K] in
theorem isQuadratic_half (p : ControlPoint K) (s x m : K) : (half p s x m).IsQuadratic :=
  ⟨_, rfl, Polynomial.isQuadratic_map [p.y, s, (m - s) / (2 * (x - p.x))] p.x le_rfl⟩

omit [Elementary K] in
theorem Through.isQuadratic (h : Through p s ps bands) : ∀ b ∈ bands, b.body.IsQuadratic := by
  induction h with
  | last => exact nofun
  | span _ _ _ _ ih =>
    rw [List.forall_mem_cons, List.forall_mem_cons]
    exact ⟨isQuadratic_half .., isQuadratic_half .., ih⟩

variable [IsStrictOrderedRing K]

omit [Elementary K] in
theorem Through.contiguous (h : Through p s ps bands) : Curve.Contiguous p.x bands := by
  induction h with
  | last => exact .nil
  | span hx _ _ _ ih =>
    apply Curve.Contiguous.cons (left_lt_middle hx) (isQuadratic_half ..).isPiece
    exact .cons (middle_lt_right hx) (isQuadratic_half ..).isPiece ih

theorem Through.eval_min (h : Through p s ps bands) (b c : Band (Exact K) (Curve (Exact K)))
    (hbc : [b, c] <:+: bands) : b.body.eval c.min = c.body.eval c.min := by
  have hjoined : [b, c].IsChain Joined := h.isChain_joined.infix hbc
  obtain ⟨x, y, s, -, hmin, hb, hc, -⟩ := List.isChain_pair.1 hjoined
  rw [hmin, hb, hc]

theorem Through.slope_min (h : Through p s ps bands) (b c : Band (Exact K) (Curve (Exact K)))
    (hbc : [b, c] <:+: bands) : b.body.slope c.min = c.body.slope c.min := by
  have hjoined : [b, c].IsChain Joined := h.isChain_joined.infix hbc
  obtain ⟨x, y, s, -, hmin, -, -, hb, hc⟩ := List.isChain_pair.1 hjoined
  rw [hmin, hb, hc]

theorem exists_contiguous (options : Options) (points : List (ControlPoint K))
    (hx : (points.map (·.x)).Nodup) :
    ∃ lo bands, Curve.spline options (points.map (ControlPoint.map value)) = piecewise bands ∧
      Curve.Contiguous lo bands ∧ (∀ b ∈ bands, b.body.IsQuadratic) ∧
      ∀ b c, [b, c] <:+: bands → b.body.eval c.min = c.body.eval c.min := by
  obtain ⟨sorted, -, hlt, hsort⟩ := sortPoints_map points hx
  rw [Curve.spline, Spline.bands, hsort]
  cases sorted with
  | nil =>
    refine ⟨0, [], congrArg piecewise List.mergeSort_nil, .nil, List.forall_mem_nil _, ?_⟩
    intro b c h
    exact absurd (List.infix_nil.1 h) (List.cons_ne_nil _ _)
  | cons p ps =>
    obtain ⟨s, bands, -, hspans, h⟩ := exists_through options p.slope? hlt
    refine ⟨p.x, bands, ?_, h.contiguous, h.isQuadratic, h.eval_min⟩
    change piecewise (Bands.ofList (spans _ (p.slope?.map value :: _))) = _
    rw [List.map_cons, hspans, Bands.ofList, List.mergeSort_of_pairwise h.pairwise]

end Bands

variable [IsStrictOrderedRing K] [LawfulRoot K]

/-- Solving a spline inside any number of changes of axes finds nothing only where nothing is, and
otherwise lists the points that take the value. -/
theorem solve_spline_levelSet (options : Options) (points : List (ControlPoint K))
    (hx : (points.map (·.x)).Nodup) {f : Curve (Exact K)}
    (hf : Curve.Wrapped Affine.Invertible
      (· = Curve.spline options (points.map (ControlPoint.map value))) f)
    (solver : BracketSolver (Exact K)) (v : K) :
    ∃ found, f.solveWith solver (value v) = .ok found ∧
      (found = none ↔ ∀ x, f.eval (value x) ≠ value v) ∧
      ∀ list ∈ found, ∃ rs : List K, list = rs.map value ∧ f.LevelSet v rs := by
  obtain ⟨lo, bands, hbands, hc, hq, hjoin⟩ := exists_contiguous options points hx
  rw [hbands] at hf
  have hspline : ∀ g, g = piecewise bands → ∀ v, ∃ rs,
      g.solveWith solver (value v) = .ok (Curve.reported rs) ∧ g.LevelSet v rs := by
    rintro _ rfl
    exact hc.exists_levelSet hq hjoin solver
  obtain ⟨rs, hrs, hset⟩ := hf.exists_levelSet hspline v
  refine ⟨_, hrs, ?_, ?_⟩
  · rw [← hset.eq_nil_iff, Curve.reported]
    cases rs with
    | nil => exact ⟨fun _ => rfl, fun _ => rfl⟩
    | cons => exact ⟨nofun, nofun⟩
  · intro list hlist
    rw [Curve.reported, Option.mem_def] at hlist
    split at hlist
    · cases hlist
    · cases hlist
      exact ⟨rs, rfl, hset⟩

noncomputable def mirroredPeak : Curve (Exact ℝ) :=
  .affine ⟨value 0, value (-1), value 0, value 1⟩
    (Curve.spline ⟨true, true⟩ (peak.map (ControlPoint.map value)))

theorem solve_spline_levelSet_peak :
    (peak.map (·.x)).Nodup ∧
      Curve.Wrapped Affine.Invertible
        (· = Curve.spline ⟨true, true⟩ (peak.map (ControlPoint.map value))) mirroredPeak ∧
      ∃ found, mirroredPeak.solve (value 1) = .ok found ∧
        (found = none ↔ ∀ x, mirroredPeak.eval (value x) ≠ value 1) ∧
        ∀ list ∈ found, ∃ rs : List ℝ, list = rs.map value ∧ mirroredPeak.LevelSet 1 rs := by
  have hx : (peak.map (·.x)).Nodup := by norm_num [peak]
  have hmirror : Affine.Invertible ⟨value 0, value (-1), value 0, value (1 : ℝ)⟩ :=
    ⟨⟨⟨-1, rfl, neg_ne_zero.2 one_ne_zero⟩, ⟨1, rfl, one_ne_zero⟩⟩, ⟨0, rfl⟩, ⟨0, rfl⟩⟩
  have hf : Curve.Wrapped Affine.Invertible
      (· = Curve.spline ⟨true, true⟩ (peak.map (ControlPoint.map value))) mirroredPeak :=
    .affine hmirror (.core rfl)
  exact ⟨hx, hf, solve_spline_levelSet ⟨true, true⟩ peak hx hf Brent.root 1⟩

end Spline
end Curves
