import Curves.Curve.Solve
import Curves.Proofs.Curve.Domain
import Curves.Proofs.Curve.Solve
import Curves.Proofs.Exact.Real
import Curves.Proofs.Polynomial.Solve

namespace Curves.Curve

universe u

variable {K : Type u} [Field K] [LinearOrder K] [Elementary K]

open Exact (value)
open Curves.Polynomial (BracketSolver)

/-- Polynomials of degree at most two, bands that are not points, and changes of axes that can be
undone. -/
def IsSolvable : Curve (Exact K) → Prop
  | .polynomial p => p.IsQuadratic
  | .piecewise bands => ∀ b ∈ bands, ∃ lo hi g, lo < hi ∧ b = ⟨value lo, value hi, g⟩
  | .affine t _ => t.Invertible
  | .oscillator _ => False

/-- At `x` the curve is read on a band from `lo` to `hi` whose own curve is `v` throughout. The
ends are those seen from outside the changes of axes around the band. -/
inductive Stretch :
    Curve (Exact K) → Exact K → Exact K → Exact K → Exact K → Prop
  | band {bands v x b} (hat : Bands.at? bands x = some b)
      (h : ∀ y, b.body.eval (value y) = v) : Stretch (.piecewise bands) v x b.min b.max
  | nested {bands v x b lo hi} (hat : Bands.at? bands x = some b)
      (h : Stretch b.body v x lo hi) : Stretch (.piecewise bands) v x lo hi
  | affine {t f v x lo hi} (h : Stretch f (t.innerValue v) (t.inner x) lo hi) :
      Stretch (.affine t f) v x (t.outer lo) (t.outer hi)

/-- Every band on which the curve is read at `x` holds `r` too. -/
inductive Enclosed : Curve (Exact K) → Exact K → Exact K → Prop
  | polynomial {p x r} : Enclosed (.polynomial p) x r
  | piecewise {bands x r b} (hat : Bands.at? bands x = some b) (hr : b.contains r)
      (h : Enclosed b.body x r) : Enclosed (.piecewise bands) x r
  | affine {t f x r} (h : Enclosed f (t.inner x) (t.inner r)) : Enclosed (.affine t f) x r

/-- A point is in the list, or it lies on a stretch, and the ends that no band cuts off are. -/
def Represents (f : Curve (Exact K)) (v x : K) (list : List (Exact K)) : Prop :=
  value x ∈ list ∨ ∃ lo hi, Stretch f (value v) (value x) (value lo) (value hi) ∧
    (Enclosed f (value x) (value lo) → value lo ∈ list) ∧
    (Enclosed f (value x) (value hi) → value hi ∈ list)

variable {f : Curve (Exact K)} {v x : K} {r : Exact K} {b : Band (Exact K) (Curve (Exact K))}
  {bands : List (Band (Exact K) (Curve (Exact K)))} {found : Option (List (Exact K))}

theorem Enclosed.of_at? (h : Enclosed (.piecewise bands) (value x) r)
    (hat : Bands.at? bands (value x) = some b) :
    b.contains r ∧ Enclosed b.body (value x) r := by
  cases h with
  | piecewise hat' hr h =>
    rw [hat'] at hat
    cases hat
    exact ⟨hr, h⟩

theorem mem_bandSolutions (hr : r ∈ found.getD []) (hc : b.contains r) :
    r ∈ bandSolutions b (value v) found := by
  cases found with
  | none => cases hr
  | some us => exact List.mem_filter.2 ⟨hr, hc⟩

theorem Everywhere.exists_solve (h : Everywhere IsSolvable f) (solver : BracketSolver (Exact K))
    (v : Exact K) : ∃ found, f.solveWith solver v = .ok found := by
  induction h generalizing v with
  | polynomial => exact ⟨_, rfl⟩
  | piecewise _ _ ih =>
    obtain ⟨rs, hrs, -⟩ := exists_solveBands fun b hb => ih b hb v
    exact ⟨_, solve_piecewise_ok hrs⟩
  | affine _ _ ih =>
    obtain ⟨found, hfound⟩ := ih _
    exact ⟨_, solve_affine_ok hfound⟩
  | oscillator h => exact h.elim

theorem Represents.of_band {rs : List (Exact K)}
    (hat : Bands.at? bands (value x) = some b)
    (hmem : ∀ r ∈ bandSolutions b (value v) found, r ∈ rs)
    (h : Represents b.body v x (found.getD [])) : Represents (piecewise bands) v x rs := by
  have hkeep {r : Exact K} (hc : b.contains r) (hr : r ∈ found.getD []) : r ∈ rs :=
    hmem r (mem_bandSolutions hr hc)
  rcases h with hx | ⟨lo, hi, hstretch, hlo, hhi⟩
  · exact .inl (hkeep (Bands.mem_of_at? hat).2 hx)
  · refine .inr ⟨lo, hi, hstretch.nested hat, ?_, ?_⟩
    · intro h
      obtain ⟨hc, hinner⟩ := h.of_at? hat
      exact hkeep hc (hlo hinner)
    · intro h
      obtain ⟨hc, hinner⟩ := h.of_at? hat
      exact hkeep hc (hhi hinner)

/-- The ends of a band that is constant stand for all of it. -/
theorem represents_of_everywhere {rs : List (Exact K)} {lo hi : K} {g : Curve (Exact K)}
    (hlt : lo < hi) (hat : Bands.at? bands (value x) = some ⟨value lo, value hi, g⟩)
    (hmem : ∀ r ∈ bandSolutions ⟨value lo, value hi, g⟩ (value v) none, r ∈ rs)
    (h : ∀ y, g.eval (value y) = value v) : Represents (piecewise bands) v x rs := by
  rw [bandSolutions_none hlt (h lo) (h hi), List.forall_mem_cons, List.forall_mem_singleton] at hmem
  exact .inr ⟨lo, hi, .band hat h, fun _ => hmem.1, fun _ => hmem.2⟩

theorem Represents.affine {t : Affine (Exact K)} {w : K} {e : K ≃ K}
    (ht : t.Translates e v w) (h : Represents f w (e x) (found.getD [])) :
    Represents (.affine t f) v x
      ((found.map fun us => (us.map t.outer).mergeSort Scalar.totalLE).getD []) := by
  have hmap {u : K} (hu : value u ∈ found.getD []) : value (e.symm u) ∈
      (found.map fun us => (us.map t.outer).mergeSort Scalar.totalLE).getD [] := by
    cases found with
    | none => cases hu
    | some us =>
      rw [← ht.outer]
      exact List.mem_mergeSort.2 (List.mem_map_of_mem hu)
  have hinside {u : K} (hu : Enclosed (.affine t f) (value x) (value (e.symm u))) :
      Enclosed f (value (e x)) (value u) := by
    cases hu with
    | affine hu => rwa [ht.inner, ht.inner, e.apply_symm_apply] at hu
  rcases h with hx | ⟨lo, hi, hstretch, hlo, hhi⟩
  · have hx' := hmap hx
    rw [e.symm_apply_apply] at hx'
    exact .inl hx'
  · rw [← ht.innerValue, ← ht.inner] at hstretch
    refine .inr ⟨e.symm lo, e.symm hi, ?_, fun h => hmap (hlo (hinside h)),
      fun h => hmap (hhi (hinside h))⟩
    rw [← ht.outer, ← ht.outer]
    exact hstretch.affine

theorem exists_represents_piecewise {solver : BracketSolver (Exact K)}
    (hs : IsSolvable (.piecewise bands)) (hb : ∀ b ∈ bands, Everywhere IsSolvable b.body)
    (ih : ∀ b ∈ bands, b.body.eval (value x) = value v → ∃ found,
      b.body.solveWith solver (value v) = .ok found ∧
        (found = none ∧ (∀ y, b.body.eval (value y) = value v) ∨
          Represents b.body v x (found.getD [])))
    (hx : (piecewise bands).eval (value x) = value v) :
    ∃ rs, solveBandsWith solver bands (value v) = .ok rs ∧ Represents (piecewise bands) v x rs := by
  obtain ⟨rs, hrs, hmem⟩ := exists_solveBands fun b h => (hb b h).exists_solve solver (value v)
  obtain ⟨b, hat, hv⟩ := exists_at?_of_eval hx
  obtain ⟨hbm, -⟩ := Bands.mem_of_at? hat
  obtain ⟨found, hfound, hcases⟩ := ih b hbm hv
  have hsub : ∀ r ∈ bandSolutions b (value v) found, r ∈ rs := by
    intro r hr
    exact (hmem r).2 ⟨b, hbm, found, hfound, hr⟩
  refine ⟨rs, hrs, ?_⟩
  rcases hcases with ⟨rfl, hall⟩ | hrep
  · obtain ⟨lo, hi, g, hlt, rfl⟩ := hs b hbm
    exact represents_of_everywhere hlt hat hsub hall
  · exact hrep.of_band hat hsub

variable [IsStrictOrderedRing K] [LawfulRoot K]

/-- Solving represents every point where the value is taken, unless it is taken everywhere. -/
theorem Everywhere.exists_represents (h : Everywhere IsSolvable f)
    (solver : BracketSolver (Exact K)) (hx : f.eval (value x) = value v) :
    ∃ found, f.solveWith solver (value v) = .ok found ∧
      (found = none ∧ (∀ y, f.eval (value y) = value v) ∨
        Represents f v x (found.getD [])) := by
  induction h generalizing v x with
  | @polynomial p h =>
    refine ⟨_, rfl, ?_⟩
    rcases h.solve_cases solver v with hnone | ⟨rs, hrs, -, hmem⟩
    · exact .inl hnone
    · rw [hrs]
      exact .inr (.inl (List.mem_map_of_mem ((hmem x).2 hx)))
  | @piecewise bands h hb ih =>
    obtain ⟨rs, hrs, hrep⟩ := exists_represents_piecewise h hb (fun b hb hv => ih b hb hv) hx
    refine ⟨_, solve_piecewise_ok hrs, .inr ?_⟩
    cases rs with
    | nil => exact hrep
    | cons => exact hrep
  | @affine t f h _ ih =>
    obtain ⟨e, w, ht⟩ := Affine.Invertible.exists_translates h v
    obtain ⟨found, hfound, hcases⟩ := ih ((ht.eval_iff f x).1 hx)
    rw [← ht.innerValue] at hfound
    refine ⟨_, solve_affine_ok hfound, ?_⟩
    rcases hcases with ⟨rfl, hall⟩ | hrep
    · exact .inl ⟨rfl, fun y => (ht.eval_iff f y).2 (hall (e y))⟩
    · exact .inr (hrep.affine ht)
  | oscillator h => exact h.elim

/-- Bands that take a value report a solution, unless each point that takes it lies on a constant
stretch with both ends cut off. -/
theorem solve_taken_or_cut (hf : Everywhere IsSolvable (.piecewise bands))
    (solver : BracketSolver (Exact K)) (hx : (piecewise bands).eval (value x) = value v) :
    ∃ found, (piecewise bands).solveWith solver (value v) = .ok found ∧
      ((∃ r rs, found = some (r :: rs)) ∨
        found = none ∧ ∃ lo hi,
          Stretch (.piecewise bands) (value v) (value x) (value lo) (value hi) ∧
            ¬Enclosed (.piecewise bands) (value x) (value lo) ∧
            ¬Enclosed (.piecewise bands) (value x) (value hi)) := by
  cases hf with
  | piecewise hs hb =>
    obtain ⟨rs, hrs, hrep⟩ :=
      exists_represents_piecewise hs hb (fun b h hv => (hb b h).exists_represents solver hv) hx
    refine ⟨_, solve_piecewise_ok hrs, ?_⟩
    cases rs with
    | cons r rs => exact .inl ⟨r, rs, rfl⟩
    | nil =>
      rcases hrep with hnil | ⟨lo, hi, hstretch, hlo, hhi⟩
      · cases hnil
      · refine .inr ⟨rfl, lo, hi, hstretch, ?_, ?_⟩
        · exact fun h => absurd (hlo h) List.not_mem_nil
        · exact fun h => absurd (hhi h) List.not_mem_nil

/-- The constant one from minus one to two, cut down to a band from zero to one. -/
def cutBands : List (Band (Exact ℝ) (Curve (Exact ℝ))) :=
  [⟨value 0, value 1,
    piecewise [⟨value (-1), value (1 + 1), polynomial ⟨[value 1], value 0⟩⟩]⟩]

theorem isSolvable_cutBands : Everywhere IsSolvable (.piecewise cutBands) := by
  have hone : Polynomial.IsQuadratic ⟨[1].map value, value (0 : ℝ)⟩ :=
    Polynomial.isQuadratic_map [1] 0 (Nat.le_add_left 1 2)
  have hlt : (-1 : ℝ) < 1 + 1 := by norm_num
  have hinner : Everywhere IsSolvable (.piecewise
      [⟨value (-1), value (1 + 1), polynomial ⟨[value (1 : ℝ)], value 0⟩⟩]) := by
    apply Everywhere.piecewise
    · exact List.forall_mem_singleton.2 ⟨-1, 1 + 1, _, hlt, rfl⟩
    · exact List.forall_mem_singleton.2 (.polynomial hone)
  apply Everywhere.piecewise
  · exact List.forall_mem_singleton.2 ⟨0, 1, _, one_pos, rfl⟩
  · exact List.forall_mem_singleton.2 hinner

theorem eval_cutBands {x : ℝ} (hlo : 0 ≤ x) (hhi : x ≤ 1) :
    (piecewise cutBands).eval (value x) = value 1 := by
  rw [cutBands, eval_cons_of_le hlo hhi, eval_cons_of_le (by linarith) (by linarith)]
  simp [eval, Polynomial.eval, Polynomial.horner]

theorem solve_taken_or_cut_cutBands :
    Everywhere IsSolvable (.piecewise cutBands) ∧
      (piecewise cutBands).eval (value 1) = value 1 ∧
      ∃ found, (piecewise cutBands).solve (value 1) = .ok found ∧
        ((∃ r rs, found = some (r :: rs)) ∨
          found = none ∧ ∃ lo hi,
            Stretch (.piecewise cutBands) (value 1) (value 1) (value lo) (value hi) ∧
              ¬Enclosed (.piecewise cutBands) (value 1) (value lo) ∧
              ¬Enclosed (.piecewise cutBands) (value 1) (value hi)) := by
  have hx := eval_cutBands zero_le_one le_rfl
  exact ⟨isSolvable_cutBands, hx, solve_taken_or_cut isSolvable_cutBands Brent.root hx⟩

/-- The value is taken on the whole range, and none of it is reported. -/
theorem solve_cutBands_eq_none :
    Everywhere IsSolvable (.piecewise cutBands) ∧
      (∀ x, 0 ≤ x → x ≤ 1 → (piecewise cutBands).eval (value x) = value 1) ∧
      (piecewise cutBands).solve (value 1) = .ok none := by
  refine ⟨isSolvable_cutBands, fun x => eval_cutBands, ?_⟩
  have hone : Polynomial.solveWith Brent.root ⟨[value (1 : ℝ)], value 0⟩ (value 1) = none := by
    rw [Polynomial.solve_constant, if_pos rfl]
  have hinner : solveBandsWith Brent.root
      [⟨value (-1), value (1 + 1), polynomial ⟨[value (1 : ℝ)], value 0⟩⟩] (value 1) =
        .ok [value (-1), value (1 + 1)] := by
    rw [solveBands_cons_ok (congrArg _ hone) rfl, bandSolutions_none]
    · rfl
    · norm_num
    · simp [eval, Polynomial.eval, Polynomial.horner]
    · simp [eval, Polynomial.eval, Polynomial.horner]
  have houter : solveBandsWith Brent.root cutBands (value 1) = .ok [] := by
    rw [cutBands, solveBands_cons_ok (solve_piecewise_ok hinner) rfl]
    norm_num [bandSolutions, Band.contains]
  exact solve_piecewise_ok houter

end Curves.Curve
