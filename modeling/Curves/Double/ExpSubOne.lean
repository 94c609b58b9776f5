namespace Curves.Double

def timesPowerOfTwo (x : Float) (k : Int) : Float :=
  .ofBits (x.toBits + UInt64.ofInt k <<< 52)

/-- The upper half of the bits of `ln 2`; few enough for small multiples to be exact. -/
def ln2High : Float := 6.93147180369123816490e-01

/-- What is left of `ln 2`. -/
def ln2Low : Float := 1.90821492927058770002e-10

def invLn2 : Float := 1.44269504088896338700

/-- A remainder `r`, the error of its rounding, and how often `ln 2` was taken off. -/
structure Reduced where
  r : Float
  error : Float
  k : Int

/-- How often `ln 2` goes into a number, to the nearest. -/
def ln2Count (x : Float) : Int :=
  if x.abs < .ofBits 0x3FD62E4300000000 then 0                -- half of ln 2
  else
    let n : Nat :=
      if x.abs < .ofBits 0x3FF0A2B200000000 then 1            -- three halves of it
      else (invLn2 * x.abs + 0.5).toUInt64.toNat
    if x < 0 then -n else n

def reduce (x : Float) : Reduced :=
  let k := ln2Count x
  if k == 0 then ⟨x, 0, 0⟩
  else
    let t := Float.ofInt k
    let high := x - t * ln2High
    let low := t * ln2Low
    let r := high - low
    ⟨r, (high - r) - low, k⟩

/-- Close to `r * (exp r + 1) / (exp r - 1)`, as a polynomial in half the square of `r`. -/
def ratioPolynomial (s : Float) : Float :=
  let s₂ := s * s
  let s₄ := s₂ * s₂
  let p₁ := 1 + s * -3.33333333333331316428e-02
  let p₂ := 1.58730158725481460165e-03 + s * -7.93650757867487942473e-05
  let p₃ := 4.00821782732936239552e-06 + s * -2.01099218183624371326e-07
  p₁ + s₂ * p₂ + s₄ * p₃

def fromReduced (a : Reduced) : Float :=
  let r := a.r
  let half := 0.5 * r
  let s := r * half
  let p := ratioPolynomial s
  let t := 3 - p * half
  let e := s * ((p - t) / (6 - r * t))
  if a.k == 0 then r - (r * e - s)
  else
    let e := (r * (e - a.error) - a.error) - s
    if a.k == -1 then 0.5 * (r - e) - 0.5
    else if a.k == 1 then
      if r < -0.25 then -2 * (e - (r + 0.5)) else 1 + 2 * (r - e)
    else if a.k ≤ -2 || 56 < a.k then timesPowerOfTwo (1 - (e - r)) a.k - 1
    else if a.k < 20 then timesPowerOfTwo ((1 - timesPowerOfTwo 1 (-a.k)) - (e - r)) a.k
    else timesPowerOfTwo ((r - (e + timesPowerOfTwo 1 (-a.k))) + 1) a.k

/-- The exponential less one. Far below zero it is minus one, far above it overflows, and next to
zero it is the argument itself. -/
def expSubOne (x : Float) : Float :=
  if x.isNaN then x
  else if x.abs < .ofBits 0x3C90000000000000 then x
  else if x ≤ -.ofBits 0x4043687A00000000 then -1
  else if 7.09782712893383973096e+02 < x then 1 / 0
  else fromReduced (reduce x)

end Curves.Double
