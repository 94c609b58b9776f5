import Curves.Catalogue
import Curves.Double
import Curves.Spline

namespace Curves

/-- What a curve is made of, with other curves by name. -/
inductive Definition where
  | polynomial (p : Polynomial Float)
  | piecewise (bands : List (Band Float String))
  | spline (points : List (ControlPoint Float)) (options : Spline.Options)
  | affine (inner : String) (t : Affine Float)
  | oscillator (o : Oscillator Float)

namespace Definition

/-- The names of the curves that a definition needs, in order. -/
def references : Definition → List String
  | polynomial _ => []
  | piecewise bands => bands.map (·.body)
  | spline _ _ => []
  | affine inner _ => [inner]
  | oscillator _ => []

/-- The curve of a definition, among the curves loaded so far. -/
def resolve (c : Catalogue (Curve Float)) : Definition → Except LoadError (Curve Float)
  | polynomial p => .ok (.polynomial p)
  | piecewise bands => do
    let bands ← bands.mapM fun b => do
      let f ← c.get b.body
      return ⟨b.min, b.max, f⟩
    return .ofBands bands
  | spline points options => .ok (.spline options points)
  | affine inner t => do
    let f ← c.get inner
    return .affine t f
  | oscillator o => .ok (.oscillator o)

def warnings : Definition → List Spline.Warning
  | spline points _ => Spline.warnings points
  | _ => []

end Definition
end Curves
