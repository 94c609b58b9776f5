import Curves.Scalar

namespace Curves

open Scalar

universe u v

/-- The closed range from `min` to `max` and what holds on it. -/
structure Band (α : Type u) (β : Type v) where
  min : α
  max : α
  body : β

variable {α : Type u} {β : Type v} [Scalar α]

namespace Band

def contains (b : Band α β) (x : α) : Bool :=
  b.min ≤ x && x ≤ b.max

def startsBefore (b c : Band α β) : Bool :=
  totalLE b.min c.min

end Band

/-- Bands in ascending order of their lower ends. -/
abbrev Bands (α : Type u) (β : Type v) := List (Band α β)

namespace Bands

/-- Puts bands in order; bands with the same lower end stay as they are given. -/
def ofList (bs : List (Band α β)) : Bands α β :=
  bs.mergeSort Band.startsBefore

/-- Inserts a band, after those with the same lower end. -/
def push (bs : Bands α β) (b : Band α β) : Bands α β :=
  bs.takeWhile (·.startsBefore b) ++ b :: bs.dropWhile (·.startsBefore b)

/-- The first band that holds a point. -/
def at? (bs : Bands α β) (x : α) : Option (Band α β) :=
  bs.find? (·.contains x)

theorem at?_cons (b : Band α β) (bs : Bands α β) (x : α) :
    at? (b :: bs) x = if b.contains x then some b else at? bs x := by
  rw [at?, List.find?_cons]
  cases b.contains x <;> rfl

def minX : Bands α β → α
  | [] => undefined
  | b :: _ => b.min

def maxX : Bands α β → α
  | [] => undefined
  | b :: bs => bs.foldl (fun m c => maximum m c.max) b.max

end Bands
end Curves
