/-!
# Scalars

Curves are computed over any type that carries the operations below. Two kinds of scalars matter:
double-precision numbers, and exact fields extended by one undefined value that absorbs every
operation. Both read the same definitions, so a law of exact arithmetic and a computed answer
speak of the same function.
-/

namespace Curves

universe u

/-- The functions beyond field arithmetic that a scalar type brings along. -/
class Elementary (α : Type u) where
  sqrt : α → α
  exp : α → α
  /-- The exponential less one, free of cancellation near zero. -/
  expSubOne : α → α
  sin : α → α
  cos : α → α
  tan : α → α
  atan : α → α

/-- The operations that curves are computed with. Comparisons are numeric: an undefined value is
neither below, nor above, nor equal to anything. -/
class Scalar (α : Type u) extends
    Add α, Sub α, Mul α, Div α, Neg α, LT α, LE α, BEq α, Elementary α where
  ofNat : Nat → α
  /-- The value of a curve outside its domain. -/
  undefined : α
  isUndefined : α → Bool
  isFinite : α → Bool
  /-- The sum of a product and a third number, rounded once. -/
  mulAdd : α → α → α → α
  magnitude : α → α
  /-- One with the sign of the argument; zeros carry a sign too. -/
  signum : α → α
  /-- A total order that extends the numeric one, with undefined values last. -/
  totalLE : α → α → Bool
  /-- The greatest integer not above the argument (zero for a negative argument), if finite. -/
  floor? : α → Option Nat
  decidableLT : DecidableLT α
  decidableLE : DecidableLE α

namespace Scalar

variable {α : Type u} [Scalar α]

instance (a b : α) : Decidable (a < b) := decidableLT a b

instance (a b : α) : Decidable (a ≤ b) := decidableLE a b

instance (priority := low) (n : Nat) : OfNat α n := ⟨ofNat n⟩

/-- The greater of two numbers; an undefined operand gives way to the other one. -/
def maximum (a b : α) : α :=
  if isUndefined a then b else if a < b then b else a

end Scalar
end Curves
