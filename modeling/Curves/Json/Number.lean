import Curves.Json

namespace Curves.Json

structure Numeral where
  negative : Bool
  whole : List Nat
  fraction : List Nat
  exponent : Option Int

/-- Digits gathered for as long as 64 bits hold them. Those after that only move the decimal point,
or are dropped in a fraction. -/
structure Significand where
  value : Nat
  /-- The power of ten that the value is still to be multiplied by. -/
  shift : Int
  full : Bool

/-- The last number of 64 bits. -/
def maxSignificand : Nat := 18446744073709551615

/-- The size of the least number of 64 bits with a sign. -/
def maxNegative : Nat := 9223372036854775808

namespace Significand

def holds (s : Significand) (digit : Nat) : Bool :=
  !s.full && s.value * 10 + digit ≤ maxSignificand

def pushWhole (s : Significand) (digit : Nat) : Significand :=
  if s.holds digit then { s with value := s.value * 10 + digit }
  else { s with shift := s.shift + 1, full := true }

def pushFraction (s : Significand) (digit : Nat) : Significand :=
  if s.holds digit then { s with value := s.value * 10 + digit, shift := s.shift - 1 }
  else { s with full := true }

end Significand

def powerOfTen (n : Nat) : Float :=
  Float.ofScientific 1 false n

def maxPower : Nat := 308

/-- The double `x` times the `e`-th power of ten, if finite. Far below zero the division is done in
steps of the greatest power. -/
def scaleByPower (x : Float) (e : Int) : Option Float :=
  if e.natAbs ≤ maxPower then
    if 0 ≤ e then
      let y := x * powerOfTen e.natAbs
      if y.isInf then none else some y
    else some (x / powerOfTen e.natAbs)
  else if x == 0 then some x
  else if 0 ≤ e then none
  else scaleByPower (x / powerOfTen maxPower) (e + maxPower)
termination_by e.natAbs
decreasing_by simp only [maxPower] at *; omega

namespace Numeral

def isInteger (n : Numeral) : Bool :=
  n.fraction.isEmpty && n.exponent.isNone

/-- The number that a numeral stands for, if it is in range. An integer below the signed range, and
a negative zero, count as doubles. -/
def value? (n : Numeral) : Option Number :=
  let whole := n.whole.foldl Significand.pushWhole ⟨0, 0, false⟩
  if n.isInteger && !whole.full then
    if !n.negative then some (.integer whole.value)
    else if whole.value == 0 || maxNegative < whole.value then some (.double (-Float.ofNat whole.value))
    else some (.integer (-whole.value))
  else
    let all := n.fraction.foldl Significand.pushFraction { whole with full := false }
    (scaleByPower (Float.ofNat all.value) (all.shift + n.exponent.getD 0)).map fun x =>
      .double (if n.negative then -x else x)

end Numeral
end Curves.Json
