import Curves.Json.Mismatch

namespace Curves.Json

abbrev Decoder (β : Type) := Json → Except Mismatch β

def decodeDouble : Decoder Float
  | number n => .ok n.toDouble
  | j => .error (.wrongType j.found .number)

def decodeText : Decoder String
  | text s => .ok s
  | j => .error (.wrongType j.found .text)

def decodeBool : Decoder Bool
  | bool b => .ok b
  | j => .error (.wrongType j.found .boolean)

def decodeList {β : Type} (element : Decoder β) : Decoder (List β)
  | array js => js.mapM element
  | j => .error (.wrongType j.found .sequence)

def decodeOption {β : Type} (decode : Decoder β) : Decoder (Option β)
  | null => .ok none
  | j => some <$> decode j

/-- A word out of a list, alone or as the only field of an object, which is then empty. -/
def decodeVariant {β : Type} (known : List (String × β)) : Decoder β
  | text word => find word
  | object [(word, value)] => do
    let b ← find word
    match value with
    | null => return b
    | j => throw (.wrongType j.found .unit)
  | object _ => .error .notSingleField
  | j => .error (.wrongType j.found .variant)
where
  find (word : String) : Except Mismatch β :=
    match known.lookup word with
    | some b => .ok b
    | none => .error (.unknownVariant word (known.map (·.1)))

/-- A field of a record: its name, what it is read as, and what it is when it is missing. -/
structure Field (β : Type) where
  name : String
  decode : Decoder β
  default? : Option β

/-- A field whose value is only checked. -/
structure FieldCheck where
  name : String
  check : Decoder Unit
  isRequired : Bool

def Field.toCheck {β : Type} (f : Field β) : FieldCheck :=
  ⟨f.name, fun j => discard (f.decode j), f.default?.isNone⟩

def Field.required {β : Type} (name : String) (decode : Decoder β) : Field β :=
  ⟨name, decode, none⟩

def Field.withDefault {β : Type} (name : String) (decode : Decoder β) (default : β) : Field β :=
  ⟨name, decode, some default⟩

/-- The field of an object, or its default. -/
def Field.get {β : Type} (f : Field β) (fields : List (String × Json)) : Except Mismatch β :=
  match fields.lookup f.name, f.default? with
  | some j, _ => f.decode j
  | none, some b => .ok b
  | none, none => .error (.missingField f.name)

/-- How a record is read: the checks of its fields, in the order of declaration, and how it is put
together from fields that have passed them. -/
structure Record (β : Type) where
  name : String
  checks : List FieldCheck
  build : List (String × Json) → Except Mismatch β

namespace Record

def of {β : Type} (name : String) (b : β) : Record β :=
  ⟨name, [], fun _ => .ok b⟩

def field {β γ : Type} (r : Record (β → γ)) (f : Field β) : Record γ where
  name := r.name
  checks := r.checks ++ [f.toCheck]
  build fields := do
    let make ← r.build fields
    let b ← f.get fields
    return make b

/-- The first mismatch among the fields of an object; fields of other names are passed over. -/
def checkFields {β : Type} (r : Record β) (fields : List (String × Json)) : Except Mismatch Unit :=
  fields.forM fun (name, j) =>
    match r.checks.find? (·.name == name) with
    | some f => f.check j
    | none => pure ()

/-- The fields that the elements of an array stand for. -/
def nameElements {β : Type} (r : Record β) :
    Nat → List FieldCheck → List Json → Except Mismatch (List (String × Json))
  | _, [], _ => .ok []
  | index, f :: fs, [] =>
    if f.isRequired then .error (.missingElement index r.name r.checks.length)
    else r.nameElements (index + 1) fs []
  | index, f :: fs, j :: js => do
    f.check j
    let rest ← r.nameElements (index + 1) fs js
    return (f.name, j) :: rest

def decode {β : Type} (r : Record β) : Decoder β
  | object fields => do
    r.checkFields fields
    r.build fields
  | array js => do
    let fields ← r.nameElements 0 r.checks js
    if r.checks.length < js.length then throw (.surplusElements js.length)
    r.build fields
  | j => .error (.wrongType j.found (.record r.name))

end Record
end Curves.Json
