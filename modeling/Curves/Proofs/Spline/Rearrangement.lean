import Mathlib.Data.List.Pairwise
import Curves.Proofs.Order
import Curves.Spline

namespace Curves.Spline

universe u

open Scalar

variable {α : Type u} [Scalar α]

/-- The total order tells the two scalars apart. -/
def Apart (a b : α) : Prop :=
  ¬(totalLE a b ∧ totalLE b a)

instance (a b : α) : Decidable (Apart a b) :=
  inferInstanceAs (Decidable (¬_))

theorem Apart.symm {a b : α} (h : Apart a b) : Apart b a :=
  fun hle => h hle.symm

variable [LawfulOrder α] {points others : List (ControlPoint α)}

theorem pairwise_sortPoints_of_apart (hx : points.Pairwise fun p q => Apart p.x q.x) :
    (sortPoints points).Pairwise fun p q => ¬totalLE q.x p.x := by
  have hperm : points.Perm (sortPoints points) := (List.mergeSort_perm _ _).symm
  have happart := hx.perm hperm Apart.symm
  have hle : (sortPoints points).Pairwise fun p q => totalLE p.x q.x :=
    pairwise_mergeSort_by ControlPoint.x points
  apply hle.imp₂ _ happart
  intro p q hle hapart hge
  exact hapart ⟨hle, hge⟩

theorem sortPoints_eq_of_perm (hx : points.Pairwise fun p q => Apart p.x q.x)
    (h : points.Perm others) : sortPoints points = sortPoints others := by
  have hsorted : (sortPoints points).Perm points := List.mergeSort_perm _ _
  have hothers : (sortPoints others).Perm others := List.mergeSort_perm _ _
  apply List.Perm.eq_of_pairwise _ (pairwise_sortPoints_of_apart hx)
    (pairwise_sortPoints_of_apart (hx.perm h Apart.symm))
    ((hsorted.trans h).trans hothers.symm)
  intro p q _ _ hpq hqp
  exact absurd (LawfulOrder.total p.x q.x) (not_or.2 ⟨hqp, hpq⟩)

/-- The order in which control points are given changes neither the spline through them nor what is
odd about them. -/
theorem spline_eq_of_perm (options : Options) (hx : points.Pairwise fun p q => Apart p.x q.x)
    (h : points.Perm others) :
    Curve.spline options points = Curve.spline options others ∧
      warnings points = warnings others := by
  have hsort := sortPoints_eq_of_perm hx h
  constructor
  · rw [Curve.spline, Curve.spline, bands, bands, hsort]
  · rw [warnings, warnings, hsort, h.length_eq]

/-- Points at both zeros and at no defined place, one of them with a slope of its own. -/
def zeroPoints : List (ControlPoint Float) :=
  [⟨0, 1, some 1⟩, ⟨undefined, 0, none⟩, ⟨-0, 0, none⟩]

theorem spline_eq_of_perm_zeroPoints :
    (zeroPoints.Pairwise fun p q => Apart p.x q.x) ∧ zeroPoints.Perm zeroPoints.reverse ∧
      Curve.spline ⟨true, true⟩ zeroPoints = Curve.spline ⟨true, true⟩ zeroPoints.reverse ∧
      warnings zeroPoints = warnings zeroPoints.reverse := by
  have hx : zeroPoints.Pairwise fun p q => Apart p.x q.x := by decide
  have h : zeroPoints.Perm zeroPoints.reverse := (List.reverse_perm zeroPoints).symm
  exact ⟨hx, h, spline_eq_of_perm ⟨true, true⟩ hx h⟩

end Curves.Spline
