import Curves.Decimal.Layout
import Curves.Json
import Curves.Text.Quoted

namespace Curves.Json

inductive Found where
  | null
  | bool (b : Bool)
  | number (n : Number)
  | text (s : String)
  | sequence
  | map

inductive Expected where
  | number
  | text
  | boolean
  | sequence
  | record (name : String)
  /-- One of a few words, or an object with such a word as its only field. -/
  | variant
  /-- The empty value beside a word. -/
  | unit

inductive Mismatch where
  | wrongType (found : Found) (expected : Expected)
  | missingField (name : String)
  | duplicateField (name : String)
  /-- An array ends before the element that stands for a required field. -/
  | missingElement (index : Nat) (record : String) (size : Nat)
  | surplusElements (length : Nat)
  | unknownVariant (word : String) (known : List String)
  /-- An object that should have exactly one field. -/
  | notSingleField

def found : Json → Found
  | null => .null
  | bool b => .bool b
  | number n => .number n
  | text s => .text s
  | array _ => .sequence
  | object _ => .map

/-- Doubles are written out from a hundred-thousandth up to sixteen digits, and show that they are
no integers. -/
def doubleLayout : Decimal.Layout where
  minPositional := -5
  maxPositional := 15
  wholeEnd := ".0"
  exponentMark := "e"
  positiveSign := "+"

def Found.message : Found → String
  | null => "null"
  | bool b => s!"boolean `{b}`"
  | number (.integer n) => s!"integer `{n}`"
  | number (.double x) => "floating point `" ++ doubleLayout.text x ++ "`"
  | text s => "string " ++ Text.quote s
  | sequence => "sequence"
  | map => "map"

def Expected.message : Expected → String
  | number => "f64"
  | text => "a string"
  | boolean => "a boolean"
  | sequence => "a sequence"
  | record name => "struct " ++ name
  | variant => "string or map"
  | unit => "unit"

namespace Mismatch

def message : Mismatch → String
  | wrongType found expected => "invalid type: " ++ found.message ++ ", expected " ++ expected.message
  | missingField name => "missing field `" ++ name ++ "`"
  | duplicateField name => "duplicate field `" ++ name ++ "`"
  | missingElement index record size =>
    s!"invalid length {index}, expected " ++ (Expected.record record).message ++
      s!" with {size} " ++ if size == 1 then "element" else "elements"
  | surplusElements length => s!"invalid length {length}, expected fewer elements in array"
  | unknownVariant word known =>
    "unknown variant `" ++ word ++ "`, expected one of " ++
      ", ".intercalate (known.map fun w => "`" ++ w ++ "`")
  | notSingleField => "invalid value: map, expected map with a single key"

end Mismatch
end Curves.Json
