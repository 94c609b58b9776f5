import Curves.Curve
import Curves.Point

namespace Curves

open Scalar

universe u

/-- A point that a spline passes through, with the slope it has there if one is prescribed. -/
structure ControlPoint (α : Type u) where
  x : α
  y : α
  slope? : Option α

variable {α : Type u} [Scalar α]

def ControlPoint.toPoint (p : ControlPoint α) : Point α := ⟨p.x, p.y⟩

namespace Spline

structure Options where
  /-- A point above or below both its neighbours gets the slope zero. -/
  preserveExtrema : Bool
  /-- Slopes at inner points are averaged as angles. -/
  atanMean : Bool
  deriving DecidableEq, Repr

inductive Warning where
  | tooFewPoints (count : Nat)
  | duplicateX
  deriving DecidableEq, Repr

def Warning.message : Warning → String
  | tooFewPoints count => s!"interpolation needs at least 2 control points, got {count}"
  | duplicateX => "interpolation control points contain duplicate x values"

def sortPoints (points : List (ControlPoint α)) : List (ControlPoint α) :=
  points.mergeSort fun p q => totalLE p.x q.x

/-- Neighbouring points out of strictly ascending order. -/
def hasRepeat : List (ControlPoint α) → Bool
  | p :: q :: points => q.x ≤ p.x || hasRepeat (q :: points)
  | _ => false

/-- What is odd about the control points; the spline is built all the same. -/
def warnings (points : List (ControlPoint α)) : List Warning :=
  if points.length < 2 then [.tooFewPoints points.length]
  else if hasRepeat (sortPoints points) then [.duplicateX]
  else []

def secant (p q : ControlPoint α) : α :=
  p.toPoint.slopeTo q.toPoint

def isLocalExtremum (before here after : α) : Bool :=
  (before < here && after < here) || (here < before && here < after)

def innerSlope (options : Options) (p q r : ControlPoint α) : α :=
  if options.preserveExtrema && isLocalExtremum p.y q.y r.y then 0
  else if options.atanMean then
    Elementary.tan ((Elementary.atan (secant p q) + Elementary.atan (secant q r)) / 2)
  else (secant p q + secant q r) / 2

/-- The slopes at the points after `p`. The last point has one only if it is prescribed. -/
def slopesAfter (options : Options) : ControlPoint α → List (ControlPoint α) → List (Option α)
  | _, [] => []
  | _, [q] => [q.slope?]
  | p, q :: r :: points =>
    some (q.slope?.getD (innerSlope options p q r)) :: slopesAfter options q (r :: points)

/-- The slopes at all points. The first point has one only if it is prescribed. -/
def slopes (options : Options) : List (ControlPoint α) → List (Option α)
  | [] => []
  | p :: points => p.slope? :: slopesAfter options p points

/-- The slopes at the beginning, the middle and the end of a span. The mean of the slope over the
span is the secant; where an end has no slope of its own, the middle takes that of the secant. -/
def spanSlopes (secant : α) : Option α → Option α → α × α × α
  | some b, some e => (b, (4 * secant - b - e) / 2, e)
  | some b, none => (b, secant, 4 * secant - b - 2 * secant)
  | none, some e => (4 * secant - e - 2 * secant, secant, e)
  | none, none => (secant, secant, secant)

/-- The parabola around a control point that has the given slopes there and at the middle of the
span. -/
def halfSpan (anchor : ControlPoint α) (slope midX midSlope : α) : Polynomial α :=
  ⟨[anchor.y, slope, (midSlope - slope) / (2 * (midX - anchor.x))], anchor.x⟩

def span (p q : ControlPoint α) (begin? end? : Option α) : List (Band α (Curve α)) :=
  let midX := (p.x + q.x) / 2
  let (b, m, e) := spanSlopes (secant p q) begin? end?
  [⟨p.x, midX, .polynomial (halfSpan p b midX m)⟩, ⟨midX, q.x, .polynomial (halfSpan q e midX m)⟩]

/-- The halves of all spans, given the slopes at all points. -/
def spans : List (ControlPoint α) → List (Option α) → List (Band α (Curve α))
  | p :: q :: points, b :: e :: slopes => span p q b e ++ spans (q :: points) (e :: slopes)
  | _, _ => []

def bands (options : Options) (points : List (ControlPoint α)) : List (Band α (Curve α)) :=
  let points := sortPoints points
  Bands.ofList (spans points (slopes options points))

end Spline

/-- The spline through control points given in any order; fewer than two make an empty curve. -/
def Curve.spline (options : Spline.Options) (points : List (ControlPoint α)) : Curve α :=
  piecewise (Spline.bands options points)

end Curves
