import Curves.Curve
import Curves.Point

namespace Curves

open Scalar

universe u

/-- The grid points `start + i * step` for `i < count`. -/
structure Trace (α : Type u) where
  curve : Curve α
  start : α
  step : α
  count : Nat

variable {α : Type u} [Scalar α]

namespace Trace

def maxCount : Nat := 18446744073709551615

/-- A positive finite step, and finite ends in order. -/
def isGrid (lo hi step : α) : Bool :=
  isFinite step && 0 < step && isFinite lo && isFinite hi && lo ≤ hi

/-- How many grid points there are from `lo` to `hi`: one more than the whole steps between them. -/
def gridCount (lo hi step : α) : Nat :=
  match floor? ((hi - lo) / step) with
  | none => maxCount
  | some steps => if maxCount < steps then maxCount else steps + 1

/-- The trace of a curve from `lo` to `hi`, empty unless these make a grid. -/
def ofRange (curve : Curve α) (lo hi step : α) : Trace α :=
  ⟨curve, lo, step, if isGrid lo hi step then gridCount lo hi step else 0⟩

def isEmpty (t : Trace α) : Bool :=
  t.count == 0

def point (t : Trace α) (i : Nat) : Point α :=
  let x := mulAdd (ofNat i) t.step t.start
  ⟨x, t.curve.eval x⟩

def points (t : Trace α) : List (Point α) :=
  (List.range t.count).map t.point

/-- The points at which the curve is defined. -/
def defined (t : Trace α) : List (Point α) :=
  t.points.filter fun p => !isUndefined p.y

structure Walk (α : Type u) where
  trace : Trace α
  index : Nat

def walk (t : Trace α) : Walk α := ⟨t, 0⟩

namespace Walk

/-- The next point, and the place after it. -/
def next? (w : Walk α) : Option (Point α × Walk α) :=
  if w.index < w.trace.count then some (w.trace.point w.index, ⟨w.trace, w.index + 1⟩) else none

def remaining (w : Walk α) : Nat :=
  w.trace.count - w.index

/-- The next `n` points, or as many as there are, and the place after them. -/
def take : Nat → Walk α → List (Point α) × Walk α
  | 0, w => ([], w)
  | n + 1, w =>
    match w.next? with
    | none => ([], w)
    | some (p, w) =>
      let (ps, w) := take n w
      (p :: ps, w)

end Walk
end Trace
end Curves
