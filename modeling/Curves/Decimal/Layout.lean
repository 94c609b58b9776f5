import Curves.Decimal.Shortest

namespace Curves.Decimal

/-- Where a decimal is written without an exponent, and how it is written with one. -/
structure Layout where
  /-- The least and the greatest power of ten of the first digit of a positional decimal. -/
  minPositional : Int
  maxPositional : Int
  /-- What follows the digits of a positional whole number. -/
  wholeEnd : String
  exponentMark : String
  positiveSign : String

namespace Layout

def zeros (n : Nat) : String := String.ofList (List.replicate n '0')

def render (l : Layout) (d : Decimal) : String :=
  let ds := Nat.toDigits 10 d.digits
  let leading := d.exponent + ds.length - 1
  if l.minPositional ≤ leading && leading ≤ l.maxPositional then
    if 0 ≤ d.exponent then String.ofList ds ++ zeros d.exponent.toNat ++ l.wholeEnd
    else if 0 ≤ leading then
      String.ofList (ds.take (leading + 1).toNat) ++ "." ++ String.ofList (ds.drop (leading + 1).toNat)
    else "0." ++ zeros (-leading - 1).toNat ++ String.ofList ds
  else
    let mantissa := match ds with
      | [] => ""
      | [c] => String.singleton c
      | c :: cs => String.singleton c ++ "." ++ String.ofList cs
    let sign := if leading < 0 then "-" else l.positiveSign
    mantissa ++ l.exponentMark ++ sign ++ toString leading.natAbs

def text (l : Layout) (x : Float) : String :=
  let sign := if x.toBits < 0x8000000000000000 then "" else "-"
  if x == 0 then sign ++ "0" ++ l.wholeEnd
  else sign ++ l.render (shortest x)

end Layout
end Curves.Decimal
