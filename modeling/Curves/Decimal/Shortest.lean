namespace Curves

/-- The number `digits * 10 ^ exponent`. -/
structure Decimal where
  digits : Nat
  exponent : Int

namespace Decimal

def mantissaExponent (x : Float) : Nat × Int :=
  match x.toModel.unpack with
  | .finite _ m e _ => (m, e)
  | _ => (0, 0)

/-- A number above zero as a quotient, with the ends of its interval over the same denominator. -/
structure Interval where
  lower : Nat
  value : Nat
  upper : Nat
  denominator : Nat
  /-- Whether the ends belong to the interval. -/
  closed : Bool

namespace Interval

/-- All numbers that read as `m * 2 ^ q`. Below a power of two the doubles are twice as dense, so
the lower end is nearer there. Ends go to the even mantissa. -/
def ofDouble (m : Nat) (q : Int) : Interval :=
  let below := if m == 4503599627370496 && -1074 < q then 1 else 2
  let scale (n : Nat) := n <<< (q - 2).toNat
  ⟨scale (4 * m - below), scale (4 * m), scale (4 * m + 2), 1 <<< (2 - q).toNat, m % 2 == 0⟩

/-- The interval in units of a power of ten. -/
def inUnits (i : Interval) (k : Int) : Interval :=
  let up := Nat.pow 10 (-k).toNat
  ⟨i.lower * up, i.value * up, i.upper * up, i.denominator * Nat.pow 10 k.toNat, i.closed⟩

def contains (i : Interval) (n : Nat) : Bool :=
  if i.closed then i.lower ≤ n * i.denominator && n * i.denominator ≤ i.upper
  else i.lower < n * i.denominator && n * i.denominator < i.upper

/-- The two whole numbers next to the value, the nearer one first; of two at the same distance,
the even one. -/
def neighbours (i : Interval) : List Nat :=
  let n := i.value / i.denominator
  match compare (2 * (i.value % i.denominator)) i.denominator with
  | .lt => [n, n + 1]
  | .gt => [n + 1, n]
  | .eq => if n % 2 == 0 then [n, n + 1] else [n + 1, n]

/-- The power of ten below one that a value has left of its first digit, within so many steps. -/
def leadingBelowOne (i : Interval) : Nat → Int → Int
  | 0, e => e
  | n + 1, e => if i.denominator ≤ (i.inUnits e).value then e else i.leadingBelowOne n (e - 1)

def leadingPower (i : Interval) : Int :=
  if i.denominator ≤ i.value then (Nat.toDigits 10 (i.value / i.denominator)).length - 1
  else i.leadingBelowOne 324 (-1)

/-- The decimal with the fewest digits in the interval, with at least `17 - n` of them. -/
def shortestWithin (i : Interval) (leading : Int) : Nat → Decimal
  | 0 => ⟨0, 0⟩
  | n + 1 =>
    let k := leading - (16 - n)
    let units := i.inUnits k
    match units.neighbours.find? units.contains with
    | some digits => ⟨digits, k⟩
    | none => i.shortestWithin leading n

end Interval

/-- Drops zeros at the end, at most `n` of them. -/
def trim : Nat → Decimal → Decimal
  | 0, d => d
  | n + 1, d => if d.digits % 10 == 0 && d.digits != 0 then trim n ⟨d.digits / 10, d.exponent + 1⟩ else d

/-- The shortest decimal for the size of a finite double that is not zero. -/
def shortest (x : Float) : Decimal :=
  let (m, q) := mantissaExponent x
  let i := Interval.ofDouble m q
  (i.shortestWithin i.leadingPower 17).trim 17

end Decimal
end Curves
