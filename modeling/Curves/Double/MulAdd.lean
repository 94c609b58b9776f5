namespace Curves.Double

open Float.Model

def exactProduct : UnpackedFloat → UnpackedFloat → UnpackedFloat
  | .notANumber, _ => .notANumber
  | _, .notANumber => .notANumber
  | .infinity _, .zero _ => .notANumber
  | .zero _, .infinity _ => .notANumber
  | .infinity s, .infinity t => .infinity (s * t)
  | .infinity s, .finite t .. => .infinity (s * t)
  | .finite s .., .infinity t => .infinity (s * t)
  | .zero s, .zero t => .zero (s * t)
  | .zero s, .finite t .. => .zero (s * t)
  | .finite s .., .zero t => .zero (s * t)
  | .finite s m e hm, .finite t n f hn => .finite (s * t) (m * n) (e + f) (Nat.mul_pos hm hn)

/-- The sum of an exact product and a double, rounded once. A sum with a zero is the product
itself, which still has to be rounded. -/
def addRounded (product c : UnpackedFloat) : UnpackedFloat :=
  match product, c with
  | .finite s m e _, .zero _ => .round Format.binary64 s m e
  | p, c => .add Format.binary64 p c

/-- The double nearest to `a * b + c`, with ties to the even mantissa. -/
def mulAdd (a b c : Float) : Float :=
  .ofModel (.pack (addRounded (exactProduct a.toModel.unpack b.toModel.unpack) c.toModel.unpack))

end Curves.Double
