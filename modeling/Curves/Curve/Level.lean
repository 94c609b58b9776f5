import Curves.Curve.Integral
import Curves.Polynomial.Roots

namespace Curves.Curve

open Scalar
open Curves.Polynomial (BracketSolver)

universe u

variable {α : Type u} [Scalar α]

/-- What a band contributes: the solutions inside it, or its ends when its curve has no list but
takes the value at both of them. -/
def bandSolutions (b : Band α (Curve α)) (v : α) : Option (List α) → List α
  | some roots => roots.filter b.contains
  | none =>
    if b.body.eval b.min == v && b.body.eval b.max == v then
      if b.max == b.min then [b.min] else [b.min, b.max]
    else []

mutual

/-- All points where the curve takes the value `v`, if they can be listed, given how to find a root
in a bracket. -/
def solveWith (solver : BracketSolver α) : Curve α → α → Except Unsupported (Option (List α))
  | polynomial p, v => .ok (p.solveWith solver v)
  | piecewise bands, v => do
    let roots ← solveBandsWith solver bands v
    return if roots.isEmpty then none else some roots
  | affine t f, v => do
    let roots ← f.solveWith solver (t.innerValue v)
    return roots.map fun us => (us.map t.outer).mergeSort totalLE
  | oscillator _, _ => .error .solve

def solveBandsWith (solver : BracketSolver α) :
    List (Band α (Curve α)) → α → Except Unsupported (List α)
  | [], _ => .ok []
  | ⟨lo, hi, f⟩ :: bands, v => do
    let roots ← f.solveWith solver v
    let rest ← solveBandsWith solver bands v
    return bandSolutions ⟨lo, hi, f⟩ v roots ++ rest

end

end Curves.Curve
