import Curves.Scalar

namespace Curves

universe u

structure Point (α : Type u) where
  x : α
  y : α

variable {α : Type u} [Scalar α]

/-- The slope of the line through two points; not a finite number if it is vertical. -/
def Point.slopeTo (p q : Point α) : α :=
  (q.y - p.y) / (q.x - p.x)

end Curves
