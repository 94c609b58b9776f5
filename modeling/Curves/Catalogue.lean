import Std.Data.ExtTreeMap.Basic
import Curves.Json.Mismatch

namespace Curves

/-- Why something cannot be loaded or looked up. -/
inductive LoadError where
  | missingFile
  | unreadableFile
  | notJson
  | mismatch (m : Json.Mismatch)
  | unknownName (name : String)

def LoadError.message : LoadError → String
  | missingFile => "the file cannot be opened"
  | unreadableFile => "the file cannot be read"
  | notJson => "the text is not JSON"
  | mismatch m => m.message
  | unknownName name => "key '" ++ name ++ "' not found"

structure Catalogue (β : Type) where
  entries : Std.ExtTreeMap String β

namespace Catalogue

variable {β : Type}

def empty : Catalogue β := ⟨∅⟩

/-- Adds a value, in place of any other of the same name. -/
def insert (c : Catalogue β) (name : String) (value : β) : Catalogue β :=
  ⟨c.entries.insert name value⟩

def get? (c : Catalogue β) (name : String) : Option β :=
  c.entries[name]?

def get (c : Catalogue β) (name : String) : Except LoadError β :=
  match c.get? name with
  | some b => .ok b
  | none => .error (.unknownName name)

def contains (c : Catalogue β) (name : String) : Bool :=
  c.entries.contains name

def names (c : Catalogue β) : List String :=
  c.entries.keys

def size (c : Catalogue β) : Nat :=
  c.entries.size

def isEmpty (c : Catalogue β) : Bool :=
  c.entries.isEmpty

end Catalogue
end Curves
