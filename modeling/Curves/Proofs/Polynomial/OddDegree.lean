import Mathlib
import Curves.Proofs.Polynomial.RealRoots

namespace Curves.Polynomial

universe u

open Exact (value)

variable {K : Type u} [Field K] [LinearOrder K]

section Knots

variable [Elementary K] {b x : K}

theorem exists_filter (b : K) (crit : List (Exact K)) :
    ∃ mid : List K, crit.filter (fun x => -value b < x && x < value b) = mid.map value ∧
      ∀ m ∈ mid, -b < m ∧ m < b := by
  have hvalue : ∀ x ∈ crit.filter (fun x => -value b < x && x < value b), x.IsValue := by
    intro x hx
    cases x with
    | undefined => exact absurd hx (by simp)
    | value a => exact Exact.isValue_value a
  obtain ⟨mid, hmid⟩ := Exact.exists_map_value hvalue
  refine ⟨mid, hmid, ?_⟩
  intro m hm
  have hmem : value m ∈ crit.filter (fun x => -value b < x && x < value b) := by
    rw [hmid]
    exact List.mem_map_of_mem hm
  simpa using (List.mem_filter.1 hmem).2

theorem skipRepeats_append {mid : List K} (hx : x < b) (hmid : ∀ m ∈ mid, m < b) :
    ∃ rest : List K,
      skipRepeats (value x) ((mid ++ [b]).map value) = rest.map value ++ [value b] := by
  induction mid generalizing x with
  | nil =>
    have hne : x ≠ b := hx.ne
    refine ⟨[], ?_⟩
    rw [List.nil_append, List.map_cons, skipRepeats, Exact.value_beq, if_neg (by simpa using hne)]
    rfl
  | cons m mid ih =>
    obtain ⟨hm, hmid⟩ := List.forall_mem_cons.1 hmid
    rw [List.cons_append, List.map_cons, skipRepeats]
    by_cases hrepeat : (value x == value m) = true
    · rw [if_pos hrepeat]
      exact ih hx hmid
    · obtain ⟨rest, hrest⟩ := ih hm hmid
      refine ⟨m :: rest, ?_⟩
      rw [if_neg hrepeat, hrest]
      rfl

theorem exists_knots [IsStrictOrderedRing K] (hb : 0 < b) (crit : List (Exact K)) :
    ∃ mid : List K, knots (value b) crit = (-b :: mid).map value ++ [value b] := by
  obtain ⟨mid, hmid, hin⟩ := exists_filter b crit
  have hin' : ∀ m ∈ mid.mergeSort (· ≤ ·), -b < m ∧ m < b :=
    fun m hm => hin m (List.mem_mergeSort.1 hm)
  have hsorted : (-b :: mid.mergeSort (· ≤ ·) ++ [b]).Pairwise (· ≤ ·) := by
    rw [List.cons_append, List.pairwise_cons, List.pairwise_append]
    refine ⟨?_, List.pairwise_mergeSort' _ _, List.pairwise_singleton _ _, ?_⟩
    · intro m hm
      rcases List.mem_append.1 hm with hm | hm
      · exact (hin' m hm).1.le
      · rw [List.mem_singleton.1 hm]
        exact (neg_lt_self hb).le
    · intro m hm c hc
      rw [List.mem_singleton.1 hc]
      exact (hin' m hm).2.le
  have hperm : (-b :: mid ++ [b]).Perm (-b :: mid.mergeSort (· ≤ ·) ++ [b]) :=
    ((List.mergeSort_perm mid _).symm.cons _).append_right _
  have hsort : (-b :: mid ++ [b]).mergeSort (· ≤ ·) = -b :: mid.mergeSort (· ≤ ·) ++ [b] :=
    ((List.mergeSort_perm _ _).trans hperm).eq_of_pairwise' (List.pairwise_mergeSort' _ _) hsorted
  have hlist : -value b :: crit.filter (fun x => -value b < x && x < value b) ++ [value b] =
      (-b :: mid ++ [b]).map value := by
    rw [hmid, List.map_append, List.map_cons]
    rfl
  obtain ⟨rest, hrest⟩ := skipRepeats_append (neg_lt_self hb) fun m hm => (hin' m hm).2
  refine ⟨rest, ?_⟩
  rw [knots, hlist, Exact.mergeSort_map_value, hsort, List.cons_append, List.map_cons]
  dsimp only
  rw [hrest]
  rfl

end Knots

variable [IsStrictOrderedRing K]

theorem mul_neg_iff_of_mul_neg {s v w : K} (h : s * v < 0) : v * w < 0 ↔ 0 < s * w := by
  rw [mul_neg_iff, mul_pos_iff]
  rcases mul_neg_iff.1 h with ⟨hs, hv⟩ | ⟨hs, hv⟩
  · simp only [hs, hv, hs.not_gt, hv.not_gt, true_and, false_and, false_or, or_false]
  · simp only [hs, hv, hs.not_gt, hv.not_gt, true_and, false_and, false_or, or_false]

variable [Elementary K]

section Walk

variable {solve : Exact K → Exact K → Option (Exact K)} {G : K → K} {s x y k z : K} {ks : List K}

theorem bracketRoots_cons_eq_nil_iff {v w : K} (hs : s ≠ 0) (hv : s * v ≤ 0)
    (hsolve : v * w < 0 → ∃ r, solve (value x) (value y) = some r)
    (rest : List (Exact K × Exact K)) :
    bracketRoots solve none ((value x, value v) :: (value y, value w) :: rest) = [] ↔
      s * v < 0 ∧ s * w ≤ 0 ∧ bracketRoots solve none ((value y, value w) :: rest) = [] := by
  have hneg : s * v < 0 ↔ v ≠ 0 := by
    rw [hv.lt_iff_ne, mul_ne_zero_iff_left hs]
  rw [bracketRoots, Exact.zero_eq, Exact.value_beq, hneg]
  by_cases hv0 : v = 0
  · rw [if_pos (decide_eq_true hv0)]
    exact ⟨fun h => absurd h (List.cons_ne_nil _ _), fun h => absurd hv0 h.1⟩
  · rw [if_neg (by simpa using hv0), Exact.value_mul]
    have hside := mul_neg_iff_of_mul_neg (w := w) (hneg.2 hv0)
    by_cases hvw : v * w < 0
    · obtain ⟨r, hr⟩ := hsolve hvw
      rw [if_pos ((Exact.value_lt _ _).2 hvw), hr]
      exact ⟨fun h => absurd h (List.cons_ne_nil _ _),
        fun h => absurd (hside.1 hvw) h.2.1.not_gt⟩
    · rw [if_neg ((Exact.value_lt _ _).not.2 hvw)]
      exact ⟨fun h => ⟨hv0, not_lt.1 (hside.not.1 hvw), h⟩, fun h => h.2.2⟩

/-- The walk reports nothing exactly if the values stay on one side of zero up to the last knot,
where the value is zero: a zero at an earlier knot and a change of sign are reported. -/
theorem bracketRoots_eq_nil_iff (hs : s ≠ 0)
    (hsolve : ∀ x y, G x * G y < 0 → ∃ r, solve (value x) (value y) = some r)
    (hfirst : s * G k ≤ 0) (hlast : 0 ≤ s * G z) :
    bracketRoots solve none ((k :: ks ++ [z]).map fun x => (value x, value (G x))) = [] ↔
      (∀ x ∈ k :: ks, s * G x < 0) ∧ G z = 0 := by
  induction ks generalizing k with
  | nil =>
    have hend : bracketRoots solve none [(value z, value (G z))] = [] := rfl
    have hzero : s * G z ≤ 0 ↔ G z = 0 := by
      rw [hlast.ge_iff_eq', mul_eq_zero, or_iff_right hs]
    rw [List.cons_append, List.map_cons, List.nil_append, List.map_singleton,
      bracketRoots_cons_eq_nil_iff hs hfirst (hsolve k z), hend, hzero, List.forall_mem_singleton,
      and_iff_left rfl]
  | cons m ks ih =>
    rw [List.cons_append, List.map_cons, List.cons_append, List.map_cons,
      bracketRoots_cons_eq_nil_iff hs hfirst (hsolve k m), List.forall_mem_cons, and_assoc]
    apply and_congr_right
    intro _
    constructor
    · rintro ⟨hm, hrest⟩
      exact (ih hm).1 hrest
    · rintro ⟨hall, hz⟩
      have hm : s * G m ≤ 0 := (hall m List.mem_cons_self).le
      exact ⟨hm, (ih hm).2 ⟨hall, hz⟩⟩

end Walk

/-- The solver answers in every bracket with values of opposite signs at its ends. -/
def Answers (solver : BracketSolver (Exact K)) : Prop :=
  ∀ cs x y, horner cs x * horner cs y < 0 → ∃ r, solver (horner cs) x y = some r

omit [IsStrictOrderedRing K] in
theorem answers_root : Answers (K := K) Brent.root := by
  intro cs x y h
  have hneg : ¬0 < horner cs x * horner cs y := by
    cases hv : horner cs x * horner cs y with
    | undefined => exact Exact.not_lt_undefined _
    | value a =>
      rw [hv, Exact.zero_eq, Exact.value_lt] at h
      rw [Exact.zero_eq, Exact.value_lt]
      exact h.not_gt
  exact ⟨_, if_neg hneg⟩

/-- The polynomial is on the far side of zero at every knot before the last one, where its value is
rounded to zero: the last knot only counts for the end of a bracket. -/
def LosesRoot (solver : BracketSolver (Exact K)) (cs : List K) (leading : K) : Prop :=
  ∃ front last, levelKnots solver (cs.map value) = front ++ [last] ∧
    (∀ k ∈ front, value leading * snappedValue (cs.map value) k < 0) ∧
    snappedValue (cs.map value) last = 0

variable {solver : BracketSolver (Exact K)} {cs lower zeros : List K} {leading : K}

theorem exists_snapped (cs : List K) :
    ∃ G : K → K, ∀ x, snappedValue (cs.map value) (value x) = value (G x) ∧
      (G x = 0 ∨ G x = powerSum cs x) := by
  have hpoint (x : K) : ∃ y, snappedValue (cs.map value) (value x) = value y ∧
      (y = 0 ∨ y = powerSum cs x) := by
    rw [snappedValue_map]
    split_ifs
    · exact ⟨0, rfl, .inl rfl⟩
    · exact ⟨_, rfl, .inr rfl⟩
  choose G hG using hpoint
  exact ⟨G, hG⟩

theorem exists_levelKnots (solver : BracketSolver (Exact K)) (lower : List K)
    (hlead : leading ≠ 0) :
    ∃ mid : List K, levelKnots solver ((lower ++ [leading]).map value) =
      (-bound lower leading :: mid).map value ++ [value (bound lower leading)] := by
  rw [levelKnots, List.map_append, List.map_singleton, List.dropLast_concat, List.getLastD_concat,
    rootBound_map _ hlead]
  exact exists_knots (one_pos.trans_le (one_le_bound _ _)) _

theorem bracketRoots_odd_eq_nil_iff (hsolver : Answers solver) (hlead : leading ≠ 0)
    (hodd : Odd lower.length) (hcs : cs = lower ++ [leading]) :
    bracketRoots (solver (horner (cs.map value))) none
        ((levelKnots solver (cs.map value)).map fun x => (x, snappedValue (cs.map value) x)) = [] ↔
      LosesRoot solver cs leading := by
  obtain ⟨mid, hknots⟩ := exists_levelKnots solver lower hlead
  rw [← hcs] at hknots
  obtain ⟨G, hG⟩ := exists_snapped cs
  have hsolve (x y : K) (hxy : G x * G y < 0) :
      ∃ r, solver (horner (cs.map value)) (value x) (value y) = some r := by
    apply hsolver
    have hx := (hG x).2.resolve_left (left_ne_zero_of_mul hxy.ne)
    have hy := (hG y).2.resolve_left (right_ne_zero_of_mul hxy.ne)
    rwa [horner_map, horner_map, ← hx, ← hy, Exact.value_mul, Exact.zero_eq, Exact.value_lt]
  have hfirst : leading * G (-bound lower leading) ≤ 0 := by
    rcases (hG (-bound lower leading)).2 with h | h
    · rw [h, mul_zero]
    · rw [h, hcs]
      exact (leading_mul_powerSum_neg_bound_neg hlead hodd).le
  have hlast : 0 ≤ leading * G (bound lower leading) := by
    rcases (hG (bound lower leading)).2 with h | h
    · rw [h, mul_zero]
    · rw [h, hcs]
      exact (leading_mul_powerSum_bound_pos hlead).le
  have hsamples : (levelKnots solver (cs.map value)).map
      (fun x => (x, snappedValue (cs.map value) x)) =
      (-bound lower leading :: mid ++ [bound lower leading]).map
        fun x => (value x, value (G x)) := by
    rw [hknots, ← List.map_singleton, ← List.map_append, List.map_map]
    exact List.map_congr_left fun x _ => congrArg (Prod.mk (value x)) (hG x).1
  have hside (x : K) : value leading * snappedValue (cs.map value) (value x) < 0 ↔
      leading * G x < 0 := by
    rw [(hG x).1, Exact.value_mul, Exact.zero_eq, Exact.value_lt]
  have hzero (x : K) : snappedValue (cs.map value) (value x) = 0 ↔ G x = 0 := by
    rw [(hG x).1, Exact.zero_eq, Exact.value.injEq]
  rw [hsamples, bracketRoots_eq_nil_iff hlead hsolve hfirst hlast]
  constructor
  · rintro ⟨hbefore, hend⟩
    refine ⟨_, _, hknots, ?_, (hzero _).2 hend⟩
    rw [List.forall_mem_map]
    exact fun x hx => (hside x).2 (hbefore x hx)
  · rintro ⟨front, last, hsplit, hbefore, hend⟩
    rw [hknots] at hsplit
    obtain ⟨rfl, hlast⟩ := List.append_inj' hsplit rfl
    cases hlast
    exact ⟨fun x hx => (hside x).1 (hbefore _ (List.mem_map_of_mem hx)), (hzero _).1 hend⟩

section Steep

theorem powerSum_steep (m x : ℝ) : powerSum [-m, 0, -m, 1] x = x * x * x - m * x * x - m := by
  simp only [powerSum_cons, powerSum_nil]
  ring

theorem powerSum_abs_steep {m : ℝ} (hm : 0 ≤ m) (x : ℝ) :
    powerSum ([-m, 0, -m, 1].map abs) x = x * x * x + m * x * x + m := by
  simp only [List.map_cons, List.map_nil, powerSum_cons, powerSum_nil, abs_neg, abs_of_nonneg hm,
    abs_zero, abs_one]
  ring

theorem exists_levelKnots_steep {m : ℝ} (hm : 1 ≤ m) :
    ∃ crit : List ℝ, (∀ x ∈ crit, x = 0 ∨ x = 2 / 3 * m) ∧
      levelKnots Brent.root (([-m, 0, -m] ++ [1]).map value) =
        (-(1 + m) :: crit).map value ++ [value (1 + m)] := by
  have hderiv : derivativeCoefs ([-m, 0, -m, 1].map value) = ([0, -(2 * m)] ++ [3]).map value := by
    rw [derivativeCoefs_map]
    norm_num [weighted]
  have htrim : trimZeros (([0, -(2 * m)] ++ [3]).map value) = ([0, -(2 * m)] ++ [3]).map value := by
    rw [trimZeros_map, trimmed_append_cons three_ne_zero (List.forall_mem_nil _)]
  obtain ⟨crit, hroots, henum⟩ : ∃ crit : List ℝ,
      realRootsWith Brent.root (([0, -(2 * m)] ++ [3]).map value) = some (crit.map value) ∧
        Enumerates crit (powerSum ([0, -(2 * m)] ++ [3])) :=
    realRootsWith_closed htrim three_ne_zero (Nat.lt_succ_self 2)
  have hbound : bound [-m, 0, -m] 1 = 1 + m := by
    have hm0 : 0 ≤ m := zero_le_one.trans hm
    simp [bound, abs_of_nonneg hm0, hm0]
  refine ⟨crit.filter fun x => -(1 + m) < x ∧ x < 1 + m, ?_, ?_⟩
  · intro x hx
    have hzero := (henum.mem_iff x).1 (List.mem_filter.1 hx).1
    have hfactor : x * (x - 2 / 3 * m) = 0 := by
      simp only [List.cons_append, List.nil_append, powerSum_cons, powerSum_nil] at hzero
      linear_combination (1 / 3 : ℝ) * hzero
    rwa [mul_eq_zero, sub_eq_zero] at hfactor
  · rw [levelKnots_map rfl one_ne_zero hderiv hroots henum.ascending, hbound, inner,
      ← List.cons_append, List.map_append, List.map_singleton]

theorem snappedValue_steep_neg {m x : ℝ} (hm : 0 ≤ m)
    (hx : 1 / 10000000000000 *
        (max |x| 1 * max |x| 1 * max |x| 1 + m * max |x| 1 * max |x| 1 + m) <
      -(x * x * x - m * x * x - m)) :
    value 1 * snappedValue ([-m, 0, -m, 1].map value) (value x) < 0 := by
  have hscale := powerSum_abs_steep hm (max |x| 1)
  have hneg : powerSum [-m, 0, -m, 1] x < 0 := by
    rw [powerSum_steep]
    refine neg_pos.1 (lt_of_le_of_lt ?_ hx)
    positivity
  rw [snappedValue_map, hscale, if_neg, Exact.value_mul, one_mul, Exact.zero_eq, Exact.value_lt]
  · exact hneg
  · rw [abs_of_neg hneg, powerSum_steep]
    exact hx.not_ge

/-- At the bound the value of `x³ - 10¹³ x² - 10¹³` is small against the sizes of its terms, though
the root is still below. -/
theorem losesRoot_steep : LosesRoot Brent.root ([-(10 ^ 13), 0, -(10 ^ 13)] ++ [1] : List ℝ) 1 := by
  obtain ⟨m, hm⟩ : ∃ m : ℝ, m = 10 ^ 13 := ⟨_, rfl⟩
  have hm1 : 1 ≤ m := by
    rw [hm]
    norm_num
  have hm0 : 0 ≤ m := zero_le_one.trans hm1
  rw [← hm]
  obtain ⟨crit, hcrit, hknots⟩ := exists_levelKnots_steep hm1
  refine ⟨_, _, hknots, ?_, ?_⟩
  · rw [List.forall_mem_map, List.forall_mem_cons]
    constructor
    · apply snappedValue_steep_neg hm0
      rw [hm]
      norm_num
    · intro x hx
      apply snappedValue_steep_neg hm0
      rcases hcrit x hx with rfl | rfl
      · rw [hm]
        norm_num
      · rw [hm]
        norm_num
  · rw [List.cons_append, List.cons_append, List.cons_append, List.nil_append, snappedValue_map,
      powerSum_abs_steep hm0, powerSum_steep, if_pos, Exact.zero_eq]
    rw [hm]
    norm_num

end Steep

/-- A polynomial of odd degree has a root in the list, unless its degree is three or more and the
search loses the root beyond the last knot. -/
theorem realRootsWith_odd_eq_nil_iff (hsolver : Answers solver) (hlead : leading ≠ 0)
    (hzeros : ∀ c ∈ zeros, c = 0) (hodd : Odd lower.length) :
    ∃ rs, realRootsWith solver ((lower ++ leading :: zeros).map value) = some rs ∧
      (rs = [] ↔ 3 ≤ lower.length ∧ LosesRoot solver (lower ++ [leading]) leading) := by
  have htrim : trimZeros ((lower ++ leading :: zeros).map value) =
      (lower ++ [leading]).map value := by
    rw [trimZeros_map, trimmed_append_cons hlead hzeros]
  by_cases hlen : 3 ≤ lower.length
  · have hlen' : 3 < (trimZeros ((lower ++ leading :: zeros).map value)).length := by
      rw [htrim, List.length_map, List.length_append]
      exact Nat.lt_succ_of_le hlen
    refine ⟨_, realRootsWith_search hlen', ?_⟩
    rw [htrim, bracketRoots_odd_eq_nil_iff hsolver hlead hodd rfl, and_iff_right hlen]
  · obtain ⟨c, rfl⟩ : ∃ c, lower = [c] := by
      obtain ⟨n, hn⟩ := hodd
      exact List.length_eq_one_iff.1 (by omega)
    refine ⟨[-value c / value leading], ?_, nofun, fun h => absurd h.1 hlen⟩
    rw [realRootsWith_eq, htrim]
    rfl

theorem realRootsWith_odd_eq_nil_iff_steep :
    Answers (K := ℝ) Brent.root ∧ (1 : ℝ) ≠ 0 ∧ (∀ c ∈ [(0 : ℝ)], c = 0) ∧
      Odd ([-(10 ^ 13), 0, -(10 ^ 13)] : List ℝ).length ∧
      ∃ rs, realRootsWith Brent.root
          (([-(10 ^ 13), 0, -(10 ^ 13)] ++ 1 :: [0] : List ℝ).map value) = some rs ∧
        (rs = [] ↔ 3 ≤ ([-(10 ^ 13), 0, -(10 ^ 13)] : List ℝ).length ∧
          LosesRoot Brent.root ([-(10 ^ 13), 0, -(10 ^ 13)] ++ [1] : List ℝ) 1) := by
  have hzeros : ∀ c ∈ [(0 : ℝ)], c = 0 := List.forall_mem_singleton.2 rfl
  have hodd : Odd ([-(10 ^ 13), 0, -(10 ^ 13)] : List ℝ).length := ⟨1, rfl⟩
  exact ⟨answers_root, one_ne_zero, hzeros, hodd,
    realRootsWith_odd_eq_nil_iff answers_root one_ne_zero hzeros hodd⟩

/-- A cubic polynomial for which no root is listed. -/
theorem realRootsWith_steep_eq_nil :
    Answers (K := ℝ) Brent.root ∧ Odd ([-(10 ^ 13), 0, -(10 ^ 13)] : List ℝ).length ∧
      realRootsWith Brent.root (([-(10 ^ 13), 0, -(10 ^ 13)] ++ [1] : List ℝ).map value) =
        some [] := by
  have hodd : Odd ([-(10 ^ 13), 0, -(10 ^ 13)] : List ℝ).length := ⟨1, rfl⟩
  have htrim : trimZeros (([-(10 ^ 13), 0, -(10 ^ 13)] ++ [1] : List ℝ).map value) =
      ([-(10 ^ 13), 0, -(10 ^ 13)] ++ [1] : List ℝ).map value := by
    rw [trimZeros_map, trimmed_append_cons one_ne_zero nofun]
  have hlen : 3 <
      (trimZeros (([-(10 ^ 13), 0, -(10 ^ 13)] ++ [1] : List ℝ).map value)).length := by
    rw [htrim, List.length_map]
    exact Nat.lt_succ_self 3
  refine ⟨answers_root, hodd, ?_⟩
  rw [realRootsWith_search hlen, htrim,
    (bracketRoots_odd_eq_nil_iff answers_root one_ne_zero hodd rfl).2 losesRoot_steep]

end Curves.Polynomial
