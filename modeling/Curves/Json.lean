namespace Curves

namespace Json

/-- A number written without fraction and exponent stays an integer while it fits into 64 bits. -/
inductive Number where
  | integer (n : Int)
  | double (x : Float)

def Number.toDouble : Number → Float
  | integer n => Float.ofInt n
  | double x => x

end Json

inductive Json where
  | null
  | bool (b : Bool)
  | number (n : Json.Number)
  | text (s : String)
  | array (elements : List Json)
  | object (fields : List (String × Json))

namespace Json

/-- The fields with one set, in place of any field of the same name. -/
def setField (name : String) (value : Json) : List (String × Json) → List (String × Json)
  | [] => [(name, value)]
  | (n, v) :: fields =>
    if name < n then (name, value) :: (n, v) :: fields
    else if name == n then (name, value) :: fields
    else (n, v) :: setField name value fields

end Json
end Curves
