import Curves.Proofs.Double.Rank
import Curves.Spline

namespace Curves.Spline

universe u

open Scalar

theorem hasRepeat_eq_false_iff {α : Type u} [Scalar α] {sorted : List (ControlPoint α)} :
    hasRepeat sorted = false ↔ sorted.IsChain fun p q => ¬q.x ≤ p.x := by
  induction sorted with
  | nil => exact iff_of_true rfl .nil
  | cons p points ih =>
    cases points with
    | nil => exact iff_of_true rfl (.singleton p)
    | cons q points =>
      rw [hasRepeat, Bool.or_eq_false_iff, decide_eq_false_iff_not, ih, List.isChain_cons_cons]

variable {points sorted : List (ControlPoint Float)}

/-- The ranks of the places. They are equal where the places are the same number. -/
def ranks (points : List (ControlPoint Float)) : List Int :=
  points.map fun p => Double.rank p.x

theorem perm_ranks_sortPoints (points : List (ControlPoint Float)) :
    (ranks (sortPoints points)).Perm (ranks points) :=
  (List.mergeSort_perm points _).map _

/-- The total order may tell equal ranks apart, but it never puts a greater one first. -/
theorem pairwise_le_ranks_sortPoints (points : List (ControlPoint Float)) :
    (ranks (sortPoints points)).Pairwise (· ≤ ·) := by
  have hle : (sortPoints points).Pairwise fun p q => totalLE p.x q.x :=
    pairwise_mergeSort_by ControlPoint.x points
  exact List.pairwise_map.2 (hle.imp Double.rank_le_of_totalLE)

theorem pairwise_lt_ranks_sortPoints_iff :
    (ranks (sortPoints points)).Pairwise (· < ·) ↔ (ranks points).Nodup := by
  rw [← (perm_ranks_sortPoints points).nodup_iff]
  constructor
  · intro hlt
    exact hlt.imp ne_of_lt
  · intro hne
    exact (pairwise_le_ranks_sortPoints points).imp₂ (fun _ _ => lt_of_le_of_ne) hne

theorem nodup_ranks_iff (hx : ∀ p ∈ points, p.x.isNaN = false) :
    (ranks points).Nodup ↔ points.Pairwise fun p q => ¬p.x == q.x := by
  rw [ranks, List.Nodup, List.pairwise_map]
  apply List.Pairwise.iff_of_mem
  intro p q hp hq
  rw [Double.beq_iff_rank (hx p hp) (hx q hq)]

theorem hasRepeat_eq_false_iff_ranks (hx : ∀ p ∈ sorted, p.x.isNaN = false) :
    hasRepeat sorted = false ↔ (ranks sorted).Pairwise (· < ·) := by
  rw [hasRepeat_eq_false_iff, ← List.isChain_iff_pairwise, ranks, List.isChain_map]
  apply List.IsChain.iff_of_mem_imp
  intro p q hp hq
  rw [Double.le_iff_rank (hx q hq) (hx p hp), not_le]

theorem hasRepeat_sortPoints_eq_false_iff (hx : ∀ p ∈ points, p.x.isNaN = false) :
    hasRepeat (sortPoints points) = false ↔ points.Pairwise fun p q => ¬p.x == q.x := by
  have hsorted : ∀ p ∈ sortPoints points, p.x.isNaN = false :=
    fun p hp => hx p (List.mem_mergeSort.1 hp)
  rw [hasRepeat_eq_false_iff_ranks hsorted, pairwise_lt_ranks_sortPoints_iff, nodup_ranks_iff hx]

/-- Of two or more points with a defined place each, a spline warns exactly if two have the same
number for their place, and it warns of nothing else. -/
theorem warnings_eq_duplicateX_iff (hn : 2 ≤ points.length)
    (hx : ∀ p ∈ points, p.x.isNaN = false) :
    (warnings points = [.duplicateX] ↔
        ∃ i j : Fin points.length, i < j ∧ (points.get i).x == (points.get j).x) ∧
      (warnings points = [] ↔ points.Pairwise fun p q => ¬p.x == q.x) := by
  have hrepeat := hasRepeat_sortPoints_eq_false_iff hx
  have hposition : (∃ i j : Fin points.length, i < j ∧ (points.get i).x == (points.get j).x) ↔
      ¬points.Pairwise fun p q => ¬p.x == q.x := by
    rw [List.pairwise_iff_get]
    push Not
    rfl
  rw [hposition, ← hrepeat, warnings, if_neg hn.not_gt]
  cases hasRepeat (sortPoints points) with
  | false => decide
  | true => decide

/-- Points at both infinities and both zeros, and one between the zeros in the order given. -/
def zerosApart : List (ControlPoint Float) :=
  [⟨0, 1, none⟩, ⟨.ofBits 0x7ff0000000000000, 2, none⟩, ⟨-1, 0, some 1⟩, ⟨-0, 1, none⟩,
    ⟨.ofBits 0xfff0000000000000, 3, none⟩]

theorem warnings_eq_duplicateX_iff_zerosApart :
    2 ≤ zerosApart.length ∧ (∀ p ∈ zerosApart, p.x.isNaN = false) ∧
      (∃ i j : Fin zerosApart.length, i < j ∧ (zerosApart.get i).x == (zerosApart.get j).x) ∧
      warnings zerosApart = [.duplicateX] := by
  have hn : 2 ≤ zerosApart.length := by decide
  have hx : ∀ p ∈ zerosApart, p.x.isNaN = false := by decide
  have hsame : ∃ i j : Fin zerosApart.length,
      i < j ∧ (zerosApart.get i).x == (zerosApart.get j).x :=
    ⟨⟨0, by decide⟩, ⟨3, by decide⟩, by decide, by decide⟩
  exact ⟨hn, hx, hsame, (warnings_eq_duplicateX_iff hn hx).1.2 hsame⟩

end Curves.Spline
