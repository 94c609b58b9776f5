import Curves.Curve

namespace Curves

open Scalar

universe u

/-- What an oscillator does not offer. -/
inductive Unsupported where
  | integralAt
  | antiderivative
  | solve
  deriving DecidableEq, Repr

variable {α : Type u} [Scalar α]

namespace Curve

mutual

/-- The value at `x` of the antiderivative with constant `k`, found without building it. -/
def integralAt : Curve α → α → α → Except Unsupported α
  | polynomial p, x, k => .ok (p.integralAt x k)
  | piecewise bands, x, k => integralFrom bands x k
  | affine t f, x, k => do
    let y ← f.integralAt (t.inner x) k
    return t.antiderivative.apply y
  | oscillator _, _, _ => .error .integralAt

/-- The first band starts with the constant. -/
def integralFrom : List (Band α (Curve α)) → α → α → Except Unsupported α
  | [], _, _ => .ok undefined
  | ⟨lo, hi, f⟩ :: bands, x, k => do
    if Band.contains ⟨lo, hi, f⟩ x then
      let y ← f.integralAt x k
      return y + 0
    else
      let reached ← f.integralAt hi k
      integralAfter bands x (reached + 0)

/-- Every later band is shifted to start at the value reached before it. -/
def integralAfter : List (Band α (Curve α)) → α → α → Except Unsupported α
  | [], _, _ => .ok undefined
  | ⟨lo, hi, f⟩ :: bands, x, reached => do
    let start ← f.integralAt lo 0
    if Band.contains ⟨lo, hi, f⟩ x then
      let y ← f.integralAt x 0
      return y + (reached - start)
    else
      let y ← f.integralAt hi 0
      integralAfter bands x (y + (reached - start))

end

mutual

def antiderivative : Curve α → α → Except Unsupported (Curve α)
  | polynomial p, k => .ok (polynomial (p.antiderivative k))
  | piecewise bands, k => do
    let bands ← antiderivativeFrom bands k
    return piecewise bands
  | affine t f, k => do
    let g ← f.antiderivative k
    return affine t.antiderivative g
  | oscillator _, _ => .error .antiderivative

def antiderivativeFrom : List (Band α (Curve α)) → α → Except Unsupported (List (Band α (Curve α)))
  | [], _ => .ok []
  | ⟨lo, hi, f⟩ :: bands, k => do
    let g ← f.antiderivative k
    let rest ← antiderivativeAfter bands (g.eval hi)
    return ⟨lo, hi, g⟩ :: rest

def antiderivativeAfter : List (Band α (Curve α)) → α → Except Unsupported (List (Band α (Curve α)))
  | [], _ => .ok []
  | ⟨lo, hi, f⟩ :: bands, reached => do
    let g ← f.antiderivative 0
    let g := g.raise (reached - g.eval lo)
    let rest ← antiderivativeAfter bands (g.eval hi)
    return ⟨lo, hi, g⟩ :: rest

end

end Curve
end Curves
