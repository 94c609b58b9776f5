import Curves.Catalogue
import Curves.Json.Parser
import Curves.Spline

namespace Curves

/-- A value read under a name, with what was odd about it. -/
structure Entry (β : Type) where
  name : String
  value : β
  warnings : List Spline.Warning

/-- Reads an entry, given what has been loaded before. -/
abbrev EntryReader (ι β : Type) := Catalogue β → ι → Except LoadError (Entry β)

/-- How far loading has come. What was loaded stays, also after a failure. -/
structure Progress (β : Type) where
  catalogue : Catalogue β
  warnings : List Spline.Warning
  /-- The last failure. -/
  error? : Option LoadError

namespace Progress

variable {ι β : Type}

def start (c : Catalogue β) : Progress β := ⟨c, [], none⟩

def add (p : Progress β) (e : Entry β) : Progress β :=
  { p with catalogue := p.catalogue.insert e.name e.value, warnings := p.warnings ++ e.warnings }

def fail (p : Progress β) (error : LoadError) : Progress β :=
  { p with error? := some error }

def readOne (read : EntryReader ι β) (p : Progress β) (i : ι) : Progress β :=
  match read p.catalogue i with
  | .ok e => p.add e
  | .error error => p.fail error

/-- Takes entries in order, up to the first failure. -/
def readInOrder (read : EntryReader ι β) : Progress β → List ι → Progress β
  | p, [] => p
  | p, i :: is =>
    match read p.catalogue i with
    | .ok e => readInOrder read (p.add e) is
    | .error error => p.fail error

/-- Tries all pending entries once, in order, and tells which of them failed. -/
def round (read : EntryReader ι β) : Progress β → List ι → Progress β × List ι
  | p, [] => (p, [])
  | p, i :: is =>
    match read p.catalogue i with
    | .ok e => round read (p.add e) is
    | .error error =>
      let (q, failed) := round read (p.fail error) is
      (q, i :: failed)

theorem length_round_le (read : EntryReader ι β) (p : Progress β) (is : List ι) :
    (round read p is).2.length ≤ is.length := by
  fun_induction round read p is with
  | case1 => simp
  | case2 p i is e _ ih => exact Nat.le_succ_of_le ih
  | case3 p i is error _ q failed h ih =>
    rw [h] at ih
    exact Nat.succ_le_succ ih

/-- Tries pending entries again until all have succeeded, or a whole round brings none; its last
failure then counts. -/
def readAnyOrder (read : EntryReader ι β) (p : Progress β) (pending : List ι) : Progress β :=
  match _h : round read p pending with
  | (q, failed) =>
    if failed.isEmpty then { q with error? := none }
    else if failed.length = pending.length then q
    else readAnyOrder read q failed
termination_by pending.length
decreasing_by
  have := length_round_le read p pending
  rw [_h] at this
  simp only at this
  omega

end Progress

/-- How the entries of a catalogue are read. -/
structure Loader (β : Type) where
  read : EntryReader Json β
  readAll : Progress β → List Json → Progress β

inductive Source where
  | missing
  | unreadable
  | bytes (content : List UInt8)

/-- The bytes of a source. -/
def Source.content : Source → Except LoadError (List UInt8)
  | missing => .error .missingFile
  | unreadable => .error .unreadableFile
  | bytes content => .ok content

def Source.parse (s : Source) : Except LoadError Json := do
  let content ← s.content
  match Json.parse content with
  | some j => return j
  | none => throw .notJson

namespace Loader

variable {β : Type}

def inOrder (read : EntryReader Json β) : Loader β :=
  ⟨read, Progress.readInOrder read⟩

def anyOrder (read : EntryReader Json β) : Loader β :=
  ⟨read, Progress.readAnyOrder read⟩

def loadOne (l : Loader β) (c : Catalogue β) (j : Json) : Progress β :=
  (Progress.start c).readOne l.read j

/-- Loads a list of entries. -/
def loadAll (l : Loader β) (c : Catalogue β) (js : List Json) : Progress β :=
  l.readAll (.start c) js

/-- Loads what the text of a source stands for: an array of entries, or a single one. -/
def loadSource (l : Loader β) (c : Catalogue β) (s : Source) : Progress β :=
  match s.parse with
  | .error error => (Progress.start c).fail error
  | .ok (.array js) => l.loadAll c js
  | .ok j => l.loadOne c j

end Loader
end Curves
