import Curves.Polynomial

namespace Curves.Polynomial

open Scalar

universe u

variable {α : Type u} [Scalar α]

/-- Finds a root of a function between two points. -/
abbrev BracketSolver (α : Type u) := (α → α) → α → α → Option α

/-- The coefficients up to the last one that is not zero. -/
def trimZeros (coefs : List α) : List α :=
  (coefs.reverse.dropWhile (· == 0)).reverse

/-- The real roots of `a x² + b x + c`. The sign in `q` is that of `b`, so that nothing cancels. -/
def quadraticRoots (c b a : α) : List α :=
  let discriminant := b * b - 4 * a * c
  if discriminant < 0 then []
  else if discriminant == 0 then [-b / (2 * a)]
  else
    let q := -(1 / 2) * (b + signum b * Elementary.sqrt discriminant)
    if q / a ≤ c / q then [q / a, c / q] else [c / q, q / a]

/-- A bound strictly above the size of every root: one more than the greatest ratio of a
coefficient to the leading one. -/
def rootBound (lower : List α) (leading : α) : α :=
  1 + (lower.map fun c => magnitude (c / leading)).foldl maximum 0

/-- Values this small, relative to the sum of the terms' sizes, count as zero. -/
def zeroTolerance : α := 1 / 10000000000000

/-- The sum of the sizes of all terms, at a point at least one away from zero. -/
def termScale (coefs : List α) (x : α) : α :=
  coefs.foldr (fun c acc => acc * maximum (magnitude x) 1 + magnitude c) 0

/-- The value at `x`, or zero where it is within rounding error of zero. Roots of even
multiplicity are found this way. -/
def snappedValue (coefs : List α) (x : α) : α :=
  if magnitude (horner coefs x) ≤ zeroTolerance * termScale coefs x then 0 else horner coefs x

/-- Leaves out every entry that equals the one kept last. -/
def skipRepeats : α → List α → List α
  | _, [] => []
  | last, x :: xs => if last == x then skipRepeats last xs else x :: skipRepeats x xs

/-- The critical points inside the bound, with the bound at both ends, in order. -/
def knots (bound : α) (critical : List α) : List α :=
  match (-bound :: critical.filter (fun x => -bound < x && x < bound) ++ [bound]).mergeSort totalLE with
  | [] => []
  | x :: xs => x :: skipRepeats x xs

/-- Goes through neighbouring knots with their values. A knot of value zero is a root itself,
unless it was reported last; a change of sign is left to the solver. -/
def bracketRoots (solve : α → α → Option α) : Option α → List (α × α) → List α
  | last, (x, v) :: (y, w) :: rest =>
    if v == 0 then
      if last == some x then bracketRoots solve last ((y, w) :: rest)
      else x :: bracketRoots solve (some x) ((y, w) :: rest)
    else if v * w < 0 then
      match solve x y with
      | some r => r :: bracketRoots solve (some r) ((y, w) :: rest)
      | none => bracketRoots solve last ((y, w) :: rest)
    else bracketRoots solve last ((y, w) :: rest)
  | _, _ => []

theorem length_trimZeros_le (coefs : List α) : (trimZeros coefs).length ≤ coefs.length := by
  simpa [trimZeros] using (coefs.reverse.dropWhile_sublist (· == 0)).length_le

theorem length_derivativeCoefs (c d : α) (cs : List α) :
    (derivativeCoefs (c :: d :: cs)).length = cs.length + 1 := by
  simp [derivativeCoefs]

/-- All real roots in ascending order, given how to find a root in a bracket; nothing when every
point is a root. -/
def realRootsWith (solver : BracketSolver α) (coefs : List α) : Option (List α) :=
  match h : trimZeros coefs with
  | [] => none
  | [_] => some []
  | [c, b] => some [-c / b]
  | [c, b, a] => some (quadraticRoots c b a)
  | c₀ :: c₁ :: c₂ :: c₃ :: cs =>
    let coefs' := c₀ :: c₁ :: c₂ :: c₃ :: cs
    let bound := rootBound coefs'.dropLast (coefs'.getLast (by simp [coefs']))
    let critical := (realRootsWith solver (derivativeCoefs coefs')).getD []
    let ks := knots bound critical
    some (bracketRoots (solver (horner coefs')) none (ks.map fun x => (x, snappedValue coefs' x)))
termination_by coefs.length
decreasing_by
  have := length_trimZeros_le coefs
  simp only [h, length_derivativeCoefs, List.length_cons] at *
  omega

def solveWith (solver : BracketSolver α) (p : Polynomial α) (v : α) : Option (List α) :=
  (realRootsWith solver (mapConstant (· - v) (0 - v) p.coefs)).map fun roots =>
    roots.map (· + p.origin)

end Curves.Polynomial
