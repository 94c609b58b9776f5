import Curves.Double

namespace Curves

universe u v

open Scalar

class LawfulOrder (α : Type u) [Scalar α] : Prop where
  trans : ∀ a b c : α, totalLE a b → totalLE b c → totalLE a c
  total : ∀ a b : α, totalLE a b ∨ totalLE b a

section Sorting

variable {α : Type u} {β : Type v} [Scalar α] [LawfulOrder α]

theorem totalLE_or_totalLE (a b : α) : (totalLE a b || totalLE b a) = true := by
  rw [Bool.or_eq_true]
  exact LawfulOrder.total a b

theorem pairwise_mergeSort_by (key : β → α) (l : List β) :
    (l.mergeSort fun b c => totalLE (key b) (key c)).Pairwise
      fun b c => totalLE (key b) (key c) := by
  apply List.pairwise_mergeSort
  · exact fun b c d => LawfulOrder.trans (key b) (key c) (key d)
  · exact fun b c => totalLE_or_totalLE (key b) (key c)

end Sorting

theorem totalLE_iff_orderKey (x y : Float) :
    totalLE x y ↔ Double.orderKey x ≤ Double.orderKey y :=
  decide_eq_true_iff

/-- Infinities, both zeros and the undefined value have their places among all doubles. -/
instance : LawfulOrder Float where
  trans x y z hxy hyz := by
    rw [totalLE_iff_orderKey] at hxy hyz ⊢
    exact UInt64.le_trans hxy hyz
  total x y := by
    rw [totalLE_iff_orderKey, totalLE_iff_orderKey]
    exact UInt64.le_total _ _

end Curves
