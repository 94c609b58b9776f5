import Curves.Scalar

namespace Curves.Brent

open Scalar

universe u

variable {α : Type u} [Scalar α]

structure State (α : Type u) where
  a : α
  b : α
  c : α
  /-- The step that is being taken. -/
  d : α
  /-- The step before that one. -/
  e : α
  fa : α
  fb : α
  fc : α

def epsilon : α := 1 / 4503599627370496

/-- The width of a bracket that counts as a root. -/
def tolerance : α := 1 / 100000000000000

def maxRounds : Nat := 200

def sameSide (v w : α) : Bool :=
  (0 < v && 0 < w) || (v < 0 && w < 0)

/-- Moves `c` back across the root when it has ended up on the side of `b`. -/
def State.bracket (s : State α) : State α :=
  if sameSide s.fb s.fc then
    { s with c := s.a, fc := s.fa, d := s.b - s.a, e := s.b - s.a }
  else s

/-- Makes `b` the point with the smaller value. -/
def State.orient (s : State α) : State α :=
  if magnitude s.fc < magnitude s.fb then
    { s with a := s.b, b := s.c, c := s.b, fa := s.fb, fb := s.fc, fc := s.fb }
  else s

/-- How far from `b` a root still counts as found. -/
def State.precision (s : State α) : α :=
  2 * epsilon * magnitude s.b + 1 / 2 * tolerance

def State.half (s : State α) : α :=
  1 / 2 * (s.c - s.b)

def State.converged (s : State α) : Bool :=
  magnitude s.half ≤ s.precision || s.fb == 0

/-- Numerator and denominator of the interpolated step: the secant rule while only two points are
known, inverse quadratic interpolation otherwise. -/
def State.interpolation (s : State α) : α × α :=
  let r₁ := s.fb / s.fa
  if s.a == s.c then (2 * s.half * r₁, 1 - r₁)
  else
    let r₂ := s.fa / s.fc
    let r₃ := s.fb / s.fc
    (r₁ * (2 * s.half * r₂ * (r₂ - r₃) - (s.b - s.a) * (r₃ - 1)),
      (r₂ - 1) * (r₃ - 1) * (r₁ - 1))

/-- The next step, and the one to compare the step after it with. Interpolation is used only while
it shrinks the bracket fast enough. -/
def State.step (s : State α) : α × α :=
  if s.precision ≤ magnitude s.e && magnitude s.fb < magnitude s.fa then
    let (p, q) := s.interpolation
    let q := if 0 < p then -q else q
    let p := magnitude p
    let bound₁ := 3 * s.half * q - magnitude (s.precision * q)
    let bound₂ := magnitude (s.e * q)
    if 2 * p < (if bound₁ < bound₂ then bound₁ else bound₂) then (p / q, s.d)
    else (s.half, s.half)
  else (s.half, s.half)

def State.advance (f : α → α) (s : State α) : State α :=
  let (d, e) := s.step
  let b :=
    if s.precision < magnitude d then s.b + d
    else s.b + (if 0 ≤ s.half then magnitude s.precision else -magnitude s.precision)
  { s with a := s.b, b := b, d := d, e := e, fa := s.fb, fb := f b }

def run (f : α → α) : Nat → State α → α
  | 0, s => s.b
  | n + 1, s =>
    let s := s.bracket.orient
    if s.converged then s.b else run f n (s.advance f)

/-- A root of `f` between `lo` and `hi`, if the values there do not have the same sign. -/
def root (f : α → α) (lo hi : α) : Option α :=
  if 0 < f lo * f hi then none
  else some (run f maxRounds ⟨lo, hi, hi, undefined, undefined, f lo, f hi, f hi⟩)

end Curves.Brent
