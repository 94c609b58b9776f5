import Curves.Scalar

namespace Curves

universe u

/-- The polynomial `∑ cᵢ * (x - origin) ^ i`. No coefficients stand for the zero polynomial. -/
structure Polynomial (α : Type u) where
  coefs : List α
  origin : α

namespace Polynomial

open Scalar

variable {α : Type u} [Scalar α]

/-- The value of a coefficient list by nested fused multiplication, from the leading coefficient
down. -/
def horner : List α → α → α
  | [], _ => 0
  | [c], _ => c
  | c :: d :: cs, x => mulAdd (horner (d :: cs) x) x c

/-- The coefficients of the derivative; a constant has the derivative `[0]`. -/
def derivativeCoefs (coefs : List α) : List α :=
  if coefs.length ≤ 1 then [0]
  else coefs.zipIdx.tail.map fun (c, i) => ofNat i * c

def antiderivativeCoefs (coefs : List α) (k : α) : List α :=
  k :: coefs.zipIdx.map fun (c, i) => c / ofNat (i + 1)

def degree (p : Polynomial α) : Nat :=
  p.coefs.length - 1

def eval (p : Polynomial α) (x : α) : α :=
  horner p.coefs (x - p.origin)

def slope (p : Polynomial α) (x : α) : α :=
  p.coefs.zipIdx.tail.foldr (fun (c, i) acc => mulAdd acc (x - p.origin) (ofNat i * c)) 0

/-- The value at `x` of the antiderivative that takes the value `k` at the origin. -/
def integralAt (p : Polynomial α) (x k : α) : α :=
  let sum := p.coefs.zipIdx.foldr
    (fun (c, i) acc => mulAdd acc (x - p.origin) (c / ofNat (i + 1))) 0
  mulAdd sum (x - p.origin) k

def derivative (p : Polynomial α) : Polynomial α :=
  ⟨derivativeCoefs p.coefs, p.origin⟩

def antiderivative (p : Polynomial α) (k : α) : Polynomial α :=
  ⟨antiderivativeCoefs p.coefs k, p.origin⟩

/-- The coefficients with the constant one changed; an empty list counts as a zero constant where
`empty` says so. -/
def mapConstant (g : α → α) (empty : α) : List α → List α
  | [] => [empty]
  | c :: cs => g c :: cs

def raise (p : Polynomial α) (v : α) : Polynomial α :=
  ⟨mapConstant (· + v) v p.coefs, p.origin⟩

end Polynomial
end Curves
