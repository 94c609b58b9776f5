import Curves.Band
import Curves.Oscillator
import Curves.Polynomial

namespace Curves

open Scalar

universe u

/-- A change of both axes: the curve `f` becomes `yMul * (yAdd + f (xMul * (xAdd + x)))`. -/
structure Affine (α : Type u) where
  xAdd : α
  xMul : α
  yAdd : α
  yMul : α

inductive Curve (α : Type u) where
  | polynomial (p : Polynomial α)
  | piecewise (bands : List (Band α (Curve α)))
  | affine (t : Affine α) (inner : Curve α)
  | oscillator (o : Oscillator α)

variable {α : Type u} [Scalar α]

namespace Affine

def identity : Affine α := ⟨0, 1, 0, 1⟩

def inner (t : Affine α) (x : α) : α :=
  t.xMul * (t.xAdd + x)

/-- The point that is read at `u` on the inner curve. -/
def outer (t : Affine α) (u : α) : α :=
  u / t.xMul - t.xAdd

/-- The value of the inner curve where the changed one is `v`. -/
def innerValue (t : Affine α) (v : α) : α :=
  v / t.yMul - t.yAdd

/-- The change of axes for the derivative of the inner curve. -/
def derivative (t : Affine α) : Affine α :=
  { t with yMul := t.yMul * t.xMul }

def antiderivative (t : Affine α) : Affine α :=
  { t with yMul := t.yMul / t.xMul }

def apply (t : Affine α) (y : α) : α :=
  t.yMul * (t.yAdd + y)

def raise (t : Affine α) (v : α) : Affine α :=
  { t with yAdd := t.yAdd + v / t.yMul }

end Affine

namespace Curve

mutual

def eval : Curve α → α → α
  | polynomial p, x => p.eval x
  | piecewise bands, x => evalBands bands x
  | affine t f, x => t.apply (f.eval (t.inner x))
  | oscillator o, x => o.eval x

def evalBands : List (Band α (Curve α)) → α → α
  | [], _ => undefined
  | ⟨lo, hi, f⟩ :: bands, x =>
    if Band.contains ⟨lo, hi, f⟩ x then f.eval x else evalBands bands x

end

mutual

def slope : Curve α → α → α
  | polynomial p, x => p.slope x
  | piecewise bands, x => slopeBands bands x
  | affine t f, x => t.derivative.apply (f.slope (t.inner x))
  | oscillator o, x => o.slope x

def slopeBands : List (Band α (Curve α)) → α → α
  | [], _ => undefined
  | ⟨lo, hi, f⟩ :: bands, x =>
    if Band.contains ⟨lo, hi, f⟩ x then f.slope x else slopeBands bands x

end

mutual

/-- The derivative as a curve of its own. -/
def derivative : Curve α → Curve α
  | polynomial p => polynomial p.derivative
  | piecewise bands => piecewise (derivativeBands bands)
  | affine t f => affine t.derivative f.derivative
  | oscillator o => oscillator o.derivative

def derivativeBands : List (Band α (Curve α)) → List (Band α (Curve α))
  | [] => []
  | ⟨lo, hi, f⟩ :: bands => ⟨lo, hi, f.derivative⟩ :: derivativeBands bands

end

mutual

/-- The curve shifted upwards by `v`. -/
def raise : Curve α → α → Curve α
  | polynomial p, v => polynomial (p.raise v)
  | piecewise bands, v => piecewise (raiseBands bands v)
  | affine t f, v => affine (t.raise v) f
  | oscillator o, v => oscillator (o.raise v)

def raiseBands : List (Band α (Curve α)) → α → List (Band α (Curve α))
  | [], _ => []
  | ⟨lo, hi, f⟩ :: bands, v => ⟨lo, hi, f.raise v⟩ :: raiseBands bands v

end

def lower (f : Curve α) (v : α) : Curve α :=
  f.raise (-v)

def ofBands (bands : List (Band α (Curve α))) : Curve α :=
  piecewise (Bands.ofList bands)

theorem evalBands_eq (bands : List (Band α (Curve α))) (x : α) :
    evalBands bands x =
      match Bands.at? bands x with
      | some b => b.body.eval x
      | none => undefined := by
  induction bands with
  | nil => rfl
  | cons b bands ih =>
    rw [evalBands, ih, Bands.at?_cons]
    cases b.contains x <;> rfl

theorem slopeBands_eq (bands : List (Band α (Curve α))) (x : α) :
    slopeBands bands x =
      match Bands.at? bands x with
      | some b => b.body.slope x
      | none => undefined := by
  induction bands with
  | nil => rfl
  | cons b bands ih =>
    rw [slopeBands, ih, Bands.at?_cons]
    cases b.contains x <;> rfl

theorem derivativeBands_eq_map (bands : List (Band α (Curve α))) :
    derivativeBands bands = bands.map fun b => ⟨b.min, b.max, b.body.derivative⟩ := by
  induction bands with
  | nil => rfl
  | cons b bands ih => rw [derivativeBands, ih, List.map_cons]

theorem raiseBands_eq_map (bands : List (Band α (Curve α))) (v : α) :
    raiseBands bands v = bands.map fun b => ⟨b.min, b.max, b.body.raise v⟩ := by
  induction bands with
  | nil => rfl
  | cons b bands ih => rw [raiseBands, ih, List.map_cons]

end Curve
end Curves
