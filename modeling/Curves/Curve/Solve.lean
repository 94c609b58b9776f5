import Curves.Curve.Level
import Curves.Polynomial.Brent

namespace Curves

universe u

variable {α : Type u} [Scalar α]

/-- The real roots, with brackets searched by Brent's method. -/
def Polynomial.realRoots (coefs : List α) : Option (List α) :=
  realRootsWith Brent.root coefs

/-- The points where the curve takes the value `v`, with brackets searched by Brent's method. -/
def Curve.solve (f : Curve α) (v : α) : Except Unsupported (Option (List α)) :=
  f.solveWith Brent.root v

end Curves
