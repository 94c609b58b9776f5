import Curves.Proofs.Exact.Real
import Curves.Trace

namespace Curves.Trace

universe u

open Scalar

namespace Walk

variable {α : Type u} {w : Walk α}

theorem remaining_next (h : w.index < w.trace.count) :
    (⟨w.trace, w.index + 1⟩ : Walk α).remaining + 1 = w.remaining := by
  change w.trace.count - (w.index + 1) + 1 = w.trace.count - w.index
  omega

variable [Scalar α]

theorem next?_of_lt (h : w.index < w.trace.count) :
    w.next? = some (w.trace.point w.index, ⟨w.trace, w.index + 1⟩) :=
  if_pos h

theorem next?_of_le (h : w.trace.count ≤ w.index) : w.next? = none :=
  if_neg h.not_gt

theorem take_eq (n : Nat) (w : Walk α) :
    w.take n = ((List.range' w.index (min n w.remaining)).map w.trace.point,
      ⟨w.trace, w.index + min n w.remaining⟩) := by
  induction n generalizing w with
  | zero =>
    rw [Nat.zero_min]
    rfl
  | succ n ih =>
    rcases lt_or_ge w.index w.trace.count with h | h
    · rw [take, next?_of_lt h, ← remaining_next h, Nat.add_min_add_right, List.range'_succ,
        List.map_cons]
      dsimp only
      rw [ih, Nat.add_right_comm]
      rfl
    · have hnone : w.remaining = 0 := Nat.sub_eq_zero_of_le h
      rw [take, next?_of_le h, hnone, Nat.min_zero]
      rfl

end Walk

theorem take_walk {α : Type u} [Scalar α] (t : Trace α) (n : Nat) :
    t.walk.take n = ((List.range (min n t.count)).map t.point, ⟨t, min n t.count⟩) := by
  rw [Walk.take_eq, List.range_eq_range']
  exact congrArg (Prod.mk _) (congrArg (Walk.mk t) (Nat.zero_add _))

section Grid

open Exact (value)

variable {K : Type u} [Field K] [LinearOrder K] [Elementary K] {lo hi step : K}
  (f : Curve (Exact K))

theorem isGrid_value (hle : lo ≤ hi) (hstep : 0 < step) :
    isGrid (value lo) (value hi) (value step) := by
  have hpos : (0 : Exact K) < value step := by
    rw [Exact.zero_eq]
    exact hstep
  have horder : value lo ≤ value hi := hle
  rw [isGrid, decide_eq_true hpos, decide_eq_true horder]
  rfl

theorem point_value (count i : Nat) : point ⟨f, value lo, value step, count⟩ i =
    ⟨value (lo + i * step), f.eval (value (lo + i * step))⟩ := by
  rw [point, Exact.mulAdd_eq, Exact.scalar_ofNat, Exact.value_mul, Exact.value_add, add_comm]

theorem mem_defined_iff (t : Trace (Exact K)) (p : Point (Exact K)) :
    p ∈ t.defined ↔ p ∈ t.points ∧ p.y.IsValue := by
  rw [defined, List.mem_filter]
  apply and_congr_right
  intro _
  cases p.y with
  | undefined => exact iff_of_false Bool.false_ne_true (Exact.not_isValue_iff.2 rfl)
  | value a => exact iff_of_true rfl (Exact.isValue_value a)

/-- Walking along a trace yields the points of the function on the grid, once each and in ascending
order, and a walk knows how many are left. Walking changes nothing, so a further walk yields the
same. -/
structure WalksGrid (lo hi step : K) (t : Trace (Exact K)) : Prop where
  lt_count_iff : ∀ i : Nat, i < t.count ↔ lo + i * step ≤ hi
  taken : ∀ n, (t.walk.take n).1 = (List.range (min n t.count)).map fun i : Nat =>
    ⟨value (lo + i * step), f.eval (value (lo + i * step))⟩
  ascending : ∀ n, (t.walk.take n).1.Pairwise fun p q => p.x < q.x
  remaining : ∀ n, (t.walk.take n).2.remaining = t.count - min n t.count
  again : ∀ n m, (t.walk.take n).2.trace.walk.take m = t.walk.take m
  defined_sublist : t.defined.Sublist (t.walk.take t.count).1
  mem_defined_iff : ∀ p, p ∈ t.defined ↔ p ∈ (t.walk.take t.count).1 ∧ p.y.IsValue

variable [IsStrictOrderedRing K]

theorem exists_floor? {a : K} {m : Nat} (ha : 0 ≤ a) (hm : a < m) :
    ∃ n, n < m ∧ floor? (value a) = some n ∧ ∀ i : Nat, i ≤ n ↔ (i : K) ≤ a := by
  obtain ⟨k, rfl⟩ : ∃ k, m = k + 1 := by
    refine Nat.exists_eq_add_one.2 ?_
    exact_mod_cast ha.trans_lt hm
  have hexists : ∃ n : Nat, a < n + 1 := ⟨k, by exact_mod_cast hm⟩
  refine ⟨_, ?_, dif_pos hexists, ?_⟩
  · exact Nat.lt_succ_of_le (Nat.find_min' hexists (by exact_mod_cast hm))
  · intro i
    constructor
    · intro hi
      cases i with
      | zero => rwa [Nat.cast_zero]
      | succ i =>
        rw [Nat.cast_succ]
        exact not_lt.1 (Nat.find_min hexists hi)
    · intro hi
      have hlt : (i : K) < _ + 1 := hi.trans_lt (Nat.find_spec hexists)
      exact Nat.le_of_lt_succ (by exact_mod_cast hlt)

theorem lt_gridCount_iff (hle : lo ≤ hi) (hstep : 0 < step) (hcount : (hi - lo) / step < maxCount)
    (i : Nat) : i < gridCount (value lo) (value hi) (value step) ↔ lo + i * step ≤ hi := by
  obtain ⟨n, hn, hfloor, hiff⟩ :=
    exists_floor? (div_nonneg (sub_nonneg.2 hle) hstep.le) hcount
  rw [gridCount, Exact.value_sub, Exact.value_div _ hstep.ne', hfloor]
  dsimp only
  rw [if_neg hn.not_gt, Nat.lt_succ_iff, hiff, le_div_iff₀ hstep, le_sub_iff_add_le']

theorem pairwise_grid (f : Curve (Exact K)) (lo : K) (hstep : 0 < step) (n : Nat) :
    ((List.range n).map fun i : Nat =>
      (⟨value (lo + i * step), f.eval (value (lo + i * step))⟩ : Point (Exact K))).Pairwise
        fun p q => p.x < q.x := by
  rw [List.pairwise_map]
  apply List.pairwise_lt_range.imp
  intro i j hij
  have hcast : (i : K) < j := Nat.cast_lt.2 hij
  exact add_lt_add_right (mul_lt_mul_of_pos_right hcast hstep) lo

theorem walksGrid_ofRange (hle : lo ≤ hi) (hstep : 0 < step)
    (hcount : (hi - lo) / step < maxCount) :
    WalksGrid f lo hi step (ofRange f (value lo) (value hi) (value step)) := by
  rw [ofRange, if_pos (isGrid_value hle hstep)]
  have hlt := lt_gridCount_iff hle hstep hcount
  generalize gridCount (value lo) (value hi) (value step) = count at *
  have htake (n : Nat) : ((walk ⟨f, value lo, value step, count⟩).take n).1 =
      (List.range (min n count)).map fun i : Nat =>
        ⟨value (lo + i * step), f.eval (value (lo + i * step))⟩ := by
    rw [take_walk]
    exact List.map_congr_left fun i _ => point_value f count i
  have hall : ((walk ⟨f, value lo, value step, count⟩).take count).1 =
      points ⟨f, value lo, value step, count⟩ := by
    rw [take_walk, Nat.min_self]
    rfl
  constructor
  case lt_count_iff => exact hlt
  case taken => exact htake
  case ascending =>
    intro n
    rw [htake]
    exact pairwise_grid f lo hstep _
  case remaining =>
    intro n
    rw [take_walk]
    rfl
  case again =>
    intro n m
    rw [take_walk _ n]
  case defined_sublist =>
    rw [hall]
    exact List.filter_sublist
  case mem_defined_iff =>
    intro p
    rw [hall]
    exact mem_defined_iff _ p

theorem walksGrid_ofRange_partialStep :
    (0 : ℝ) ≤ 1 ∧ (0 : ℝ) < 2 / 5 ∧ ((1 : ℝ) - 0) / (2 / 5) < maxCount ∧
      (let f : Curve (Exact ℝ) := .polynomial ⟨[value 0, value 1], value 0⟩
      let t := ofRange f (value 0) (value 1) (value (2 / 5))
      WalksGrid f 0 1 (2 / 5) t ∧ t.count = 3) := by
  have hcount : ((1 : ℝ) - 0) / (2 / 5) < maxCount := by norm_num [maxCount]
  have hwalks := walksGrid_ofRange (.polynomial ⟨[value 0, value 1], value 0⟩)
    zero_le_one (by norm_num : (0 : ℝ) < 2 / 5) hcount
  refine ⟨zero_le_one, by norm_num, hcount, hwalks, ?_⟩
  have hlast := (hwalks.lt_count_iff 2).2 (by norm_num)
  have hnext := mt (hwalks.lt_count_iff 3).1 (by norm_num)
  omega

end Grid

end Curves.Trace
