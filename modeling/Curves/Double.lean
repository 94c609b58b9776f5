import Curves.Scalar
import Curves.Double.ExpSubOne
import Curves.Double.MulAdd

namespace Curves.Double

/-- The key that orders all doubles: negative numbers by falling, the others by rising bit
pattern. Negative zero is below zero and the undefined value is above infinity. -/
def orderKey (x : Float) : UInt64 :=
  if x.toBits < 0x8000000000000000 then x.toBits + 0x8000000000000000
  else 0xFFFFFFFFFFFFFFFF - x.toBits

def totalLE (x y : Float) : Bool :=
  orderKey x ≤ orderKey y

def undefined : Float :=
  .ofBits 0x7FF8000000000000

def signum (x : Float) : Float :=
  if x.isNaN then x else if x.toBits < 0x8000000000000000 then 1 else -1

/-- The integer part of a positive double, zero for a negative one, and nothing for infinities and
the undefined value. -/
def floor? (x : Float) : Option Nat :=
  match x.toModel.unpack with
  | .notANumber => none
  | .infinity _ => none
  | .zero _ => some 0
  | .finite .negative .. => some 0
  | .finite .positive m e _ => some (if 0 ≤ e then m <<< e.toNat else m >>> (-e).toNat)

end Curves.Double

namespace Curves

instance : Elementary Float where
  sqrt := Float.sqrt
  exp := Float.exp
  expSubOne := Double.expSubOne
  sin := Float.sin
  cos := Float.cos
  tan := Float.tan
  atan := Float.atan

instance : Scalar Float where
  ofNat := Float.ofNat
  undefined := Double.undefined
  isUndefined := Float.isNaN
  isFinite := Float.isFinite
  mulAdd := Double.mulAdd
  magnitude := Float.abs
  signum := Double.signum
  totalLE := Double.totalLE
  floor? := Double.floor?
  decidableLT := inferInstance
  decidableLE := inferInstance

end Curves
