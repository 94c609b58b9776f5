import Curves.Catalogue.Entry

namespace Curves

open Json (Token Mismatch Found Expected)

structure Configuration where
  curves : Catalogue (Curve Float)
  /-- What was odd about the entries, in the order in which they were loaded. -/
  warnings : List Spline.Warning

namespace Configuration

def empty : Configuration := ⟨.empty, []⟩

/-- The configuration of a list of entries, all of which have to load. -/
def ofEntries (entries : List Json) : Except LoadError Configuration :=
  let p := Loader.curves.loadAll .empty entries
  match p.error? with
  | some error => .error error
  | none => .ok ⟨p.catalogue, p.warnings⟩

def recordName : String := "ConfigurationJsonProp"

def entriesName : String := "functions"

def record : Json.Record (List Json) :=
  (Json.Record.of recordName id).field
    (.withDefault entriesName (Json.decodeList .ok) [])

def ofJson (j : Json) : Except LoadError Configuration := do
  let entries ← (record.decode j).mapError .mismatch
  ofEntries entries

/-- What a token begins, if that is a value. -/
def foundAt : Token → Option Found
  | .null => some .null
  | .bool b => some (.bool b)
  | .number n? => n?.map .number
  | .text s? => s?.map .text
  | .openArray => some .sequence
  | .openObject => some .map
  | _ => none

def wrongTypeAt {β : Type} (expected : Expected) : List Token → Except LoadError β
  | t :: _ =>
    match foundAt t with
    | some found => .error (.mismatch (.wrongType found expected))
    | none => .error .notJson
  | [] => .error .notJson

/-- Reads the list of entries. Its array is inside the outermost record. -/
def readEntries : List Token → Except LoadError (List Json × List Token)
  | .openArray :: ts =>
    match Json.readValue (.strict (Json.maxDepth - 1)) [] (.openArray :: ts) with
    | some (.array js, r) => .ok (js, r)
    | _ => .error .notJson
  | ts => wrongTypeAt .sequence ts

def skipValue (ts : List Token) : Except LoadError (List Token) :=
  match Json.readValue (.lax ts) [] ts with
  | some (_, r) => .ok r
  | none => .error .notJson

theorem wrongTypeAt_ne_ok {β : Type} {expected : Expected} {ts : List Token} {b : β} :
    wrongTypeAt expected ts ≠ .ok b := by
  intro h
  unfold wrongTypeAt at h
  split at h
  case h_1 =>
    split at h
    case h_1 | h_2 => cases h
  case h_2 => cases h

theorem length_lt_of_readEntries {ts r : List Token} {js : List Json}
    (h : readEntries ts = .ok (js, r)) : r.length < ts.length := by
  unfold readEntries at h
  split at h
  case h_1 =>
    split at h
    case h_1 hv =>
      cases h
      exact Json.readValue_length _ _ _ _ _ hv
    case h_2 => cases h
  case h_2 => exact absurd h wrongTypeAt_ne_ok

theorem length_lt_of_skipValue {ts r : List Token} (h : skipValue ts = .ok r) :
    r.length < ts.length := by
  unfold skipValue at h
  split at h
  case h_1 hv =>
    cases h
    exact Json.readValue_length _ _ _ _ _ hv
  case h_2 => cases h

/-- Reads the fields of the outermost object, from a name on. What was read of the entries before
is given, so that a second list of them is noticed. -/
def readFields (entries? : Option (List Json)) : List Token → Except LoadError (List Json × List Token)
  | .text (some name) :: ts =>
    if name == entriesName then
      if entries?.isSome then .error (.mismatch (.duplicateField name))
      else
        match ts with
        | .colon :: ts =>
          match _h : readEntries ts with
          | .error error => .error error
          | .ok (js, .comma :: r) => readFields (some js) r
          | .ok (js, .closeObject :: r) => .ok (js, r)
          | .ok _ => .error .notJson
        | _ => .error .notJson
    else
      match ts with
      | .colon :: ts =>
        match _h : skipValue ts with
        | .error error => .error error
        | .ok (.comma :: r) => readFields entries? r
        | .ok (.closeObject :: r) => .ok (entries?.getD [], r)
        | .ok _ => .error .notJson
      | _ => .error .notJson
  | _ => .error .notJson
termination_by ts => ts.length
decreasing_by
  · have := length_lt_of_readEntries _h
    simp only [List.length_cons] at *
    omega
  · have := length_lt_of_skipValue _h
    simp only [List.length_cons] at *
    omega

def readRecord : List Token → Except LoadError (List Json × List Token)
  | .openArray :: .closeArray :: r => .ok ([], r)
  | .openArray :: ts =>
    match readEntries ts with
    | .error error => .error error
    | .ok (js, .closeArray :: r) => .ok (js, r)
    | .ok _ => .error .notJson
  | .openObject :: .closeObject :: r => .ok ([], r)
  | .openObject :: ts => readFields none ts
  | ts => wrongTypeAt (.record recordName) ts

/-- The configuration that a text stands for. -/
def ofBytes (s : List UInt8) : Except LoadError Configuration :=
  match readRecord (Json.tokens s) with
  | .error error => .error error
  | .ok (js, []) => ofEntries js
  | .ok _ => .error .notJson

def ofSource (s : Source) : Except LoadError Configuration := do
  let content ← s.content
  ofBytes content

end Configuration
end Curves
