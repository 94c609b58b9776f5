import Curves.Catalogue.Definition
import Curves.Catalogue.Loader
import Curves.Json.Record

namespace Curves

open Json (Field Record decodeDouble decodeText decodeBool decodeList decodeOption decodeVariant)

namespace Definition

inductive Kind where
  | polynomial
  | piecewise
  | interpolated
  | affine
  | oscillator
  | spring

def kinds : List (String × Kind) :=
  [("Polynomial", .polynomial), ("Piecewise", .piecewise), ("Interpolated", .interpolated),
    ("Affine", .affine), ("SecondOrderOde", .oscillator), ("SpringDamperMass", .spring)]

def nameRecord : Record String :=
  (Record.of "NamedJsonObject" id).field (.required "name" decodeText)

def kindRecord : Record Kind :=
  (Record.of "FunctionTypedObject" id).field (.required "function_type" (decodeVariant kinds))

def pointRecord : Record (Point Float) :=
  (Record.of "Point2D" Point.mk)
    |>.field (.required "x" decodeDouble)
    |>.field (.required "y" decodeDouble)

def controlPointRecord : Record (ControlPoint Float) :=
  (Record.of "ControlPoint" ControlPoint.mk)
    |>.field (.required "x" decodeDouble)
    |>.field (.required "fx" decodeDouble)
    |>.field (.withDefault "dfx" (decodeOption decodeDouble) none)

def optionsRecord : Record Spline.Options :=
  (Record.of "InterpolationOptions" Spline.Options.mk)
    |>.field (.withDefault "preserve_extrema" decodeBool false)
    |>.field (.withDefault "atan_mean_dfx" decodeBool false)

def polynomialRecord : Record Definition :=
  (Record.of "PolynomialJsonProp" fun coefs origin => polynomial ⟨coefs, origin⟩)
    |>.field (.required "coefficients" (decodeList decodeDouble))
    |>.field (.withDefault "origin" decodeDouble 0)

def bandRecord : Record (Band Float String) :=
  (Record.of "BandJsonProp" Band.mk)
    |>.field (.required "min" decodeDouble)
    |>.field (.required "max" decodeDouble)
    |>.field (.required "function" decodeText)

def piecewiseRecord : Record Definition :=
  (Record.of "PiecewiseJsonProp" piecewise).field
    (.required "bands" (decodeList bandRecord.decode))

def interpolatedRecord : Record Definition :=
  (Record.of "InterpolatedJsonProp" spline)
    |>.field (.required "points" (decodeList controlPointRecord.decode))
    |>.field (.withDefault "options" optionsRecord.decode ⟨false, false⟩)

def affineRecord : Record Definition :=
  (Record.of "AffineJsonProp" fun inner xAdd xMul yAdd yMul => affine inner ⟨xAdd, xMul, yAdd, yMul⟩)
    |>.field (.required "inner" decodeText)
    |>.field (.withDefault "x_add" decodeDouble 0)
    |>.field (.withDefault "x_mul" decodeDouble 1)
    |>.field (.withDefault "y_add" decodeDouble 0)
    |>.field (.withDefault "y_mul" decodeDouble 1)

def oscillatorRecord : Record Definition :=
  (Record.of "SecondOrderOdeJsonProp" fun damping stiffness force velocity position =>
      oscillator (.ofParameters ⟨damping, stiffness, force, velocity, position⟩))
    |>.field (.required "c_dfx" decodeDouble)
    |>.field (.required "c_fx" decodeDouble)
    |>.field (.withDefault "constant" decodeDouble 0)
    |>.field (.required "df0" decodeDouble)
    |>.field (.required "f0" decodeDouble)

def springRecord : Record Definition :=
  (Record.of "SpringDamperMassJsonProp" fun stiffness damping mass position velocity force =>
      oscillator (.ofSpring stiffness damping mass position velocity force))
    |>.field (.required "stiffness" decodeDouble)
    |>.field (.required "damping" decodeDouble)
    |>.field (.required "mass" decodeDouble)
    |>.field (.required "position" decodeDouble)
    |>.field (.required "velocity" decodeDouble)
    |>.field (.withDefault "force" decodeDouble 0)

def Kind.record : Kind → Record Definition
  | polynomial => polynomialRecord
  | piecewise => piecewiseRecord
  | interpolated => interpolatedRecord
  | affine => affineRecord
  | oscillator => oscillatorRecord
  | spring => springRecord

/-- The name and the definition of an entry. All three records are read from the same value. -/
def decode (j : Json) : Except Json.Mismatch (String × Definition) := do
  let name ← nameRecord.decode j
  let kind ← kindRecord.decode j
  let definition ← kind.record.decode j
  return (name, definition)

/-- Reads an entry and resolves its definition. -/
def read : EntryReader Json (Curve Float) := fun c j => do
  let (name, d) ← (decode j).mapError .mismatch
  let f ← d.resolve c
  return ⟨name, f, d.warnings⟩

end Definition

/-- Loads curves, whose definitions may come before those they refer to. -/
def Loader.curves : Loader (Curve Float) :=
  .anyOrder Definition.read

end Curves
