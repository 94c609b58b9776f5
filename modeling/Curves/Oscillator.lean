import Curves.Scalar

namespace Curves

open Scalar

universe u

variable {α : Type u} [Scalar α]

/-- The family of solutions, by the sign of the discriminant `damping² - 4 * stiffness`. -/
inductive Damping (α : Type u) where
  /-- `l * exp (r₁ * x) + m * exp (r₂ * x) + h` -/
  | overdamped (r₁ r₂ : α)
  /-- `(l * cos (beta * x) + m * sin (beta * x)) * exp (alpha * x) + h` -/
  | underdamped (alpha beta : α)
  /-- `(l + m * x) * exp (r * x) + h` -/
  | critical (r : α)

namespace Damping

def ofDiscriminant (damping discriminant : α) : Damping α :=
  if 0 < discriminant then
    .overdamped ((-damping - Elementary.sqrt discriminant) / 2)
      ((-damping + Elementary.sqrt discriminant) / 2)
  else if discriminant < 0 then
    .underdamped (-damping / 2) (Elementary.sqrt (-discriminant) / 2)
  else
    .critical (-damping / 2)

def basis : Damping α → α → α × α
  | overdamped r₁ r₂, x => (Elementary.exp (r₁ * x), Elementary.exp (r₂ * x))
  | underdamped alpha beta, x =>
    let growth := Elementary.exp (alpha * x)
    (growth * Elementary.cos (beta * x), growth * Elementary.sin (beta * x))
  | critical r, x =>
    let growth := Elementary.exp (r * x)
    (growth, x * growth)

/-- How far the basis solutions have moved since zero, without cancellation near zero. -/
def basisIncrement : Damping α → α → α × α
  | overdamped r₁ r₂, x => (Elementary.expSubOne (r₁ * x), Elementary.expSubOne (r₂ * x))
  | underdamped alpha beta, x =>
    let halfSine := Elementary.sin (1 / 2 * beta * x)
    (Elementary.expSubOne (alpha * x) * Elementary.cos (beta * x) - 2 * halfSine * halfSine,
      Elementary.exp (alpha * x) * Elementary.sin (beta * x))
  | critical r, x => (Elementary.expSubOne (r * x), x * Elementary.exp (r * x))

/-- The derivative of a combination of the basis solutions, in the same basis. -/
def differentiate : Damping α → α × α → α × α
  | overdamped r₁ r₂, (a, b) => (r₁ * a, r₂ * b)
  | underdamped alpha beta, (a, b) => (alpha * a + beta * b, alpha * b - beta * a)
  | critical r, (a, b) => (r * a + b, r * b)

/-- The combination of the basis solutions with value `c` and slope `velocity` at zero. -/
def fit (velocity c : α) : Damping α → α × α
  | overdamped r₁ r₂ =>
    let l := (velocity - r₂ * c) / (r₁ - r₂)
    (l, c - l)
  | underdamped alpha beta => (c, (velocity - alpha * c) / beta)
  | critical r => (c, velocity - r * c)

end Damping

/-- What an oscillator is told, with the position and velocity it has at zero. -/
structure Oscillator.Parameters (α : Type u) where
  damping : α
  stiffness : α
  force : α
  velocity : α
  position : α

/-- An oscillator keeps what it computes from its parameters. -/
structure Oscillator (α : Type u) extends Oscillator.Parameters α where
  /-- Where a constant force holds it at rest. -/
  rest : α
  discriminant : α
  regime : Damping α
  /-- The coefficients of the motion about the point of rest. -/
  weights : α × α
  slopeWeights : α × α
  curvatureWeights : α × α

namespace Oscillator

/-- Everything that is kept, from the parameters as they are now. -/
def compute (o : Oscillator α) : Oscillator α :=
  let rest := if o.force == 0 then 0 else o.force / o.stiffness
  let discriminant := o.damping * o.damping - 4 * o.stiffness
  let regime := Damping.ofDiscriminant o.damping discriminant
  let weights := regime.fit o.velocity (o.position - rest)
  let slopeWeights := regime.differentiate weights
  { o with
    rest := rest
    discriminant := discriminant
    regime := regime
    weights := weights
    slopeWeights := slopeWeights
    curvatureWeights := regime.differentiate slopeWeights }

def ofParameters (p : Parameters α) : Oscillator α :=
  let discriminant := p.damping * p.damping - 4 * p.stiffness
  let regime := Damping.ofDiscriminant p.damping discriminant
  compute ⟨p, 0, discriminant, regime, (0, 0), (0, 0), (0, 0)⟩

/-- A mass on a spring with a damper: all terms are taken per unit of mass. -/
def ofSpring (stiffness damping mass position velocity force : α) : Oscillator α :=
  ofParameters ⟨damping / mass, stiffness / mass, force / mass, velocity, position⟩

/-- A combination of basis solutions at `x`. -/
def combine (weights basis : α × α) : α :=
  weights.1 * basis.1 + weights.2 * basis.2

def eval (o : Oscillator α) (x : α) : α :=
  o.position + combine o.weights (o.regime.basisIncrement x)

def slope (o : Oscillator α) (x : α) : α :=
  o.velocity + combine o.slopeWeights (o.regime.basisIncrement x)

def curvature (o : Oscillator α) (x : α) : α :=
  combine o.curvatureWeights (o.regime.basis x)

/-- The velocity moves like the position, without the force. -/
def derivative (o : Oscillator α) : Oscillator α :=
  let acceleration := o.force - o.damping * o.velocity - o.stiffness * o.position
  ofParameters ⟨o.damping, o.stiffness, 0, acceleration, o.velocity⟩

def set (o : Oscillator α) (damping stiffness force velocity position : α) : Oscillator α :=
  compute { o with
    damping := damping
    stiffness := stiffness
    force := force
    velocity := velocity
    position := position }

/-- The motion shifted upwards by `v`: the force moves the point of rest along. -/
def raise (o : Oscillator α) (v : α) : Oscillator α :=
  compute { o with
    force := o.force + o.stiffness * v
    position := o.position + v }

end Oscillator
end Curves
