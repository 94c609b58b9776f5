import Mathlib
import Curves.Curve.Solve
import Curves.Proofs.Curve.Solve
import Curves.Proofs.Curve.Stitching
import Curves.Proofs.Exact.Real
import Curves.Proofs.Polynomial.Solve

namespace Curves.Curve

universe u

variable {K : Type u} [Field K] [LinearOrder K] [Elementary K]

open Exact (value)
open Curves.Polynomial (BracketSolver)

def IsQuadratic (f : Curve (Exact K)) : Prop :=
  ∃ p, f = .polynomial p ∧ p.IsQuadratic

/-- The solutions that a band holds, but only its ends where all points are solutions. -/
def Reports (b : Band (Exact K) (Curve (Exact K))) (v r : K) : Prop :=
  b.contains (value r) ∧ b.body.eval (value r) = value v ∧
    ((∀ y, b.body.eval (value y) = value v) → value r = b.min ∨ value r = b.max)

/-- The value is taken at the lower end of a band, but not by the band before, which counts there. -/
def JumpsTo (bands : List (Band (Exact K) (Curve (Exact K)))) (v : K) (r : Exact K) : Prop :=
  ∃ c b, [c, b] <:+: bands ∧ r = b.min ∧ b.body.eval r = value v ∧ c.body.eval r ≠ value v

variable {lo hi r v : K} {f : Curve (Exact K)} {b c : Band (Exact K) (Curve (Exact K))}
  {bands : List (Band (Exact K) (Curve (Exact K)))}

omit [Elementary K] [LinearOrder K] in
theorem IsQuadratic.isPiece (h : f.IsQuadratic) : f.IsPiece := by
  obtain ⟨p, rfl, hp⟩ := h
  exact .polynomial hp.toIsDefined

omit [Elementary K] in
theorem Contiguous.exists_ends (h : Contiguous lo bands) (hb : b ∈ bands) :
    ∃ x y f, x < y ∧ b = ⟨value x, value y, f⟩ := by
  induction h with
  | nil => cases hb
  | @cons lo hi f bands h _ _ ih =>
    rcases List.mem_cons.1 hb with rfl | hb
    · exact ⟨lo, hi, f, h, rfl⟩
    · exact ih hb

omit [Elementary K] in
theorem Contiguous.neighbours (h : Contiguous lo bands) (hb : [c, b] <:+: bands) :
    ∃ x y z f g, lo ≤ x ∧ x < y ∧ y < z ∧ c = ⟨value x, value y, f⟩ ∧ b = ⟨value y, value z, g⟩ := by
  induction h with
  | nil => exact absurd (List.infix_nil.1 hb) nofun
  | @cons lo hi f bands h _ hbands ih =>
    rcases List.infix_cons_iff.1 hb with hprefix | hinfix
    · obtain ⟨rfl, hrest⟩ := List.cons_prefix_cons.1 hprefix
      cases hbands with
      | nil => exact absurd (List.prefix_nil.1 hrest) nofun
      | @cons _ z g _ h' =>
        obtain ⟨rfl, -⟩ := List.cons_prefix_cons.1 hrest
        exact ⟨lo, hi, z, f, g, le_rfl, h, h', rfl, rfl⟩
    · obtain ⟨x, y, z, g, g', hx, hrest⟩ := ih hinfix
      exact ⟨x, y, z, g, g', h.le.trans hx, hrest⟩

/-- At a shared end the band on the left counts. -/
theorem Contiguous.at?_min (h : Contiguous lo bands) (hb : [c, b] <:+: bands) :
    Bands.at? bands b.min = some c := by
  induction h with
  | nil => exact absurd (List.infix_nil.1 hb) nofun
  | cons h _ hbands ih =>
    rcases List.infix_cons_iff.1 hb with hprefix | hinfix
    · obtain ⟨rfl, hrest⟩ := List.cons_prefix_cons.1 hprefix
      cases hbands with
      | nil => exact absurd (List.prefix_nil.1 hrest) nofun
      | cons =>
        obtain ⟨rfl, -⟩ := List.cons_prefix_cons.1 hrest
        exact at?_cons_of_le h.le le_rfl
    · obtain ⟨x, y, z, g, g', hx, hxy, -, rfl, rfl⟩ := hbands.neighbours hinfix
      rw [at?_cons_of_lt (hx.trans_lt hxy)]
      exact ih hinfix

theorem Contiguous.eval_min (h : Contiguous lo bands) (hb : [c, b] <:+: bands) :
    (piecewise bands).eval b.min = c.body.eval b.min := by
  rw [eval, evalBands_eq, h.at?_min hb]

theorem Contiguous.le_of_contains (h : Contiguous lo bands) (hb : b ∈ bands)
    (hr : b.contains (value r)) : lo ≤ r := by
  obtain ⟨m, hm, hle⟩ := h.min_ge b hb
  simp only [Band.contains, hm, Exact.value_le, Bool.and_eq_true, decide_eq_true_eq] at hr
  exact hle.trans hr.1

theorem Contiguous.at?_eq_or (h : Contiguous lo bands) (hb : b ∈ bands)
    (hr : b.contains (value r)) :
    Bands.at? bands (value r) = some b ∨ ∃ c, [c, b] <:+: bands ∧ value r = b.min := by
  induction h with
  | nil => cases hb
  | @cons lo hi f bands h _ hbands ih =>
    rcases List.mem_cons.1 hb with rfl | hb
    · obtain ⟨hlo, hhi⟩ := contains_iff.1 hr
      exact .inl (at?_cons_of_le hlo hhi)
    · by_cases hhi : hi < r
      · rw [at?_cons_of_lt hhi]
        rcases ih hb with heq | ⟨c, hc, hmin⟩
        · exact .inl heq
        · exact .inr ⟨c, List.infix_cons hc, hmin⟩
      · right
        -- the point is the upper end of the first band, and only the next band begins there
        cases hbands with
        | nil => cases hb
        | @cons _ hi' g rest h' _ hrest =>
          rcases List.mem_cons.1 hb with rfl | hb
          · obtain ⟨hlo, -⟩ := contains_iff.1 hr
            exact ⟨_, ⟨[], rest, rfl⟩, congrArg value (le_antisymm (not_lt.1 hhi) hlo)⟩
          · exact absurd (h'.trans_le (hrest.le_of_contains hb hr)) hhi

theorem Contiguous.eval_eq_or (h : Contiguous lo bands) (hb : b ∈ bands)
    (hr : b.contains (value r)) :
    (piecewise bands).eval (value r) = b.body.eval (value r) ∨
      ∃ c, [c, b] <:+: bands ∧ value r = b.min := by
  apply (h.at?_eq_or hb hr).imp_left
  intro hat
  rw [eval, evalBands_eq, hat]

theorem JumpsTo.reports (h : Contiguous lo bands) (hj : JumpsTo bands v (value r)) :
    ∃ b ∈ bands, Reports b v r := by
  obtain ⟨c, b, hb, hmin, hv, -⟩ := hj
  obtain ⟨x, y, z, f, g, -, -, hyz, rfl, rfl⟩ := h.neighbours hb
  cases hmin
  have hmem := hb.subset (List.mem_cons_of_mem _ (List.mem_singleton_self _))
  exact ⟨_, hmem, contains_iff.2 ⟨le_rfl, hyz.le⟩, hv, fun _ => .inl rfl⟩

variable [IsStrictOrderedRing K] [LawfulRoot K]

theorem exists_bandSolutions (solver : BracketSolver (Exact K)) {p : Polynomial (Exact K)}
    (hp : p.IsQuadratic) (h : lo < hi) (v : K) :
    ∃ rs : List K,
      bandSolutions ⟨value lo, value hi, polynomial p⟩ (value v) (p.solveWith solver (value v)) =
        rs.map value ∧
      rs.Pairwise (· < ·) ∧ ∀ r, r ∈ rs ↔ Reports ⟨value lo, value hi, polynomial p⟩ v r := by
  rcases hp.solve_cases solver v with ⟨hnone, hall⟩ | ⟨rs, hrs, hpair, hmem⟩
  · refine ⟨[lo, hi], ?_, List.pairwise_pair.2 h, ?_⟩
    · rw [hnone, bandSolutions_none (f := polynomial p) h (hall lo) (hall hi)]
      rfl
    · intro r
      rw [List.mem_pair, Reports, contains_iff, Exact.value.injEq, Exact.value.injEq]
      constructor
      · rintro (rfl | rfl)
        · exact ⟨⟨le_rfl, h.le⟩, hall r, fun _ => .inl rfl⟩
        · exact ⟨⟨h.le, le_rfl⟩, hall r, fun _ => .inr rfl⟩
      · intro hr
        exact hr.2.2 hall
  · refine ⟨rs.filter fun x => lo ≤ x ∧ x ≤ hi, ?_, hpair.filter _, ?_⟩
    · rw [hrs, bandSolutions, List.filter_map]
      congr 1
      apply List.filter_congr
      intro x _
      rw [Function.comp, Band.contains, Bool.decide_and]
      rfl
    · intro r
      have hne : ¬∀ y, (polynomial p).eval (value y) = value v := by
        intro hall
        obtain ⟨y, hy⟩ := Infinite.exists_notMem_finset rs.toFinset
        rw [List.mem_toFinset, hmem] at hy
        exact hy (hall y)
      rw [List.mem_filter, decide_eq_true_eq, hmem, Reports, contains_iff, and_comm]
      exact and_congr_right fun _ => (and_iff_left fun hall => absurd hall hne).symm

/-- The bands are solved one after the other, so what they report is in order. -/
theorem Contiguous.solveBands_ok (h : Contiguous lo bands)
    (hq : ∀ b ∈ bands, b.body.IsQuadratic) (solver : BracketSolver (Exact K)) (v : K) :
    ∃ rs : List K, solveBandsWith solver bands (value v) = .ok (rs.map value) ∧
      rs.Pairwise (· ≤ ·) ∧ ∀ r, r ∈ rs ↔ ∃ b ∈ bands, Reports b v r := by
  induction h with
  | nil => exact ⟨[], rfl, .nil, fun r => ⟨nofun, nofun⟩⟩
  | @cons lo hi f bands h _ hbands ih =>
    obtain ⟨⟨p, rfl, hp⟩, hqs⟩ := List.forall_mem_cons.1 hq
    obtain ⟨first, hfirst, hpair, hmem⟩ := exists_bandSolutions solver hp h v
    obtain ⟨rest, hrest, hpairs, hmems⟩ := ih hqs
    refine ⟨first ++ rest, ?_, ?_, ?_⟩
    · rw [solveBands_cons_ok rfl hrest, hfirst, List.map_append]
    · refine List.pairwise_append.2 ⟨hpair.imp le_of_lt, hpairs, ?_⟩
      intro r hr t ht
      obtain ⟨-, hhi⟩ := contains_iff.1 ((hmem r).1 hr).1
      obtain ⟨b, hb, hcontains, -⟩ := (hmems t).1 ht
      exact hhi.trans (hbands.le_of_contains hb hcontains)
    · intro r
      rw [List.mem_append, hmem, hmems, List.exists_mem_cons_iff]

/-- The reported points that are no solutions are the jumps onto the value. -/
theorem solve_unsound_iff_jumpsTo (h : Contiguous lo bands)
    (hq : ∀ b ∈ bands, b.body.IsQuadratic) (solver : BracketSolver (Exact K)) (v : K) :
    ∃ found, (piecewise bands).solveWith solver (value v) = .ok found ∧
      ∀ r, (r ∈ found.getD [] ∧ (piecewise bands).eval r ≠ value v) ↔ JumpsTo bands v r := by
  obtain ⟨rs, hrs, -, hmem⟩ := h.solveBands_ok hq solver v
  have hlist : (if (rs.map value).isEmpty then none else some (rs.map value)).getD [] =
      rs.map value := by
    cases rs with
    | nil => rfl
    | cons => rfl
  refine ⟨_, solve_piecewise_ok hrs, ?_⟩
  intro r
  rw [hlist, List.mem_map]
  constructor
  · rintro ⟨⟨r, hr, rfl⟩, hne⟩
    obtain ⟨b, hb, hcontains, hv, -⟩ := (hmem r).1 hr
    rcases h.eval_eq_or hb hcontains with heq | ⟨c, hc, hmin⟩
    · exact absurd (heq.trans hv) hne
    · refine ⟨c, b, hc, hmin, hv, ?_⟩
      rwa [hmin, h.eval_min hc, ← hmin] at hne
  · intro hj
    have hreports := hj
    obtain ⟨c, b, hb, rfl, -, hne⟩ := hj
    rw [h.eval_min hb]
    obtain ⟨x, y, z, f, g, -, -, -, -, rfl⟩ := h.neighbours hb
    exact ⟨⟨y, (hmem y).2 (hreports.reports h), rfl⟩, hne⟩

/-- Zero up to one, and then the identity, which would begin at one. -/
def jumpBands : List (Band (Exact ℝ) (Curve (Exact ℝ))) :=
  [⟨value 0, value 1, polynomial ⟨[value 0], value 0⟩⟩,
    ⟨value 1, value (1 + 1), polynomial ⟨[value 0, value 1], value 0⟩⟩]

theorem contiguous_jumpBands : Contiguous 0 jumpBands ∧ ∀ b ∈ jumpBands, b.body.IsQuadratic := by
  have hzero : IsQuadratic (polynomial ⟨[0].map value, value (0 : ℝ)⟩) :=
    ⟨_, rfl, Polynomial.isQuadratic_map [0] 0 (Nat.le_add_left 1 2)⟩
  have hid : IsQuadratic (polynomial ⟨[0, 1].map value, value (0 : ℝ)⟩) :=
    ⟨_, rfl, Polynomial.isQuadratic_map [0, 1] 0 (Nat.le_add_left 2 1)⟩
  have hsecond := Contiguous.cons (lt_add_one 1) hid.isPiece .nil
  exact ⟨.cons one_pos hzero.isPiece hsecond,
    List.forall_mem_cons.2 ⟨hzero, List.forall_mem_singleton.2 hid⟩⟩

theorem solveBands_jumpBands (solver : BracketSolver (Exact ℝ)) :
    solveBandsWith solver jumpBands (value 1) = .ok [value 1] := by
  have hzero : Polynomial.solveWith solver ⟨[value (0 : ℝ)], value 0⟩ (value 1) = some [] := by
    rw [Polynomial.solve_constant, if_neg zero_ne_one]
  have hid : Polynomial.solveWith solver ⟨[value (0 : ℝ), value 1], value 0⟩ (value 1) =
      some [value 1] := by
    rw [Polynomial.solveWith, Polynomial.realRootsWith_eq]
    simp [Polynomial.mapConstant, Polynomial.trimZeros]
  rw [jumpBands, solveBands_cons_ok (congrArg _ hzero) (solveBands_cons_ok (congrArg _ hid) rfl)]
  simp [bandSolutions, Band.contains]

theorem solve_unsound_iff_jumpsTo_jumpBands :
    Contiguous 0 jumpBands ∧ (∀ b ∈ jumpBands, b.body.IsQuadratic) ∧
      ∃ found, (piecewise jumpBands).solve (value 1) = .ok found ∧
        ∀ r, (r ∈ found.getD [] ∧ (piecewise jumpBands).eval r ≠ value 1) ↔
          JumpsTo jumpBands 1 r := by
  obtain ⟨hc, hq⟩ := contiguous_jumpBands
  exact ⟨hc, hq, solve_unsound_iff_jumpsTo hc hq Brent.root 1⟩

/-- The identity is solved for one at one, where the curve is still zero. -/
theorem solve_jumpBands_unsound :
    Contiguous 0 jumpBands ∧ (∀ b ∈ jumpBands, b.body.IsQuadratic) ∧
      (piecewise jumpBands).solve (value 1) = .ok (some [value 1]) ∧
      (piecewise jumpBands).eval (value 1) = value 0 := by
  obtain ⟨hc, hq⟩ := contiguous_jumpBands
  refine ⟨hc, hq, solve_piecewise_ok (solveBands_jumpBands Brent.root), ?_⟩
  rw [jumpBands, eval_cons_of_le zero_le_one le_rfl]
  simp [eval, Polynomial.eval, Polynomial.horner]

end Curves.Curve
