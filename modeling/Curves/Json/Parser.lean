import Curves.Json.Token

namespace Curves.Json

/-- An open container, with what it holds so far. -/
inductive Frame where
  /-- The elements in reverse. -/
  | array (done : List Json)
  /-- The finished fields, and the name of the field whose value comes next. -/
  | object (done : List (String × Json)) (name : String)

/-- What a reader accepts. -/
structure Strictness where
  /-- The greatest number of containers open at once. -/
  maxDepth : Nat
  /-- What counts as the value of a number out of range. -/
  anyNumber : Option Number
  /-- What counts as the text of a string that is no Unicode. -/
  anyText : Option String

mutual

/-- Reads a value inside the open containers, and all that is left of these. The result is the
outermost value and what follows it. -/
def readValue (how : Strictness) : List Frame → List Token → Option (Json × List Token)
  | stack, .null :: ts => closeValue how stack .null ts
  | stack, .bool b :: ts => closeValue how stack (.bool b) ts
  | stack, .number n? :: ts =>
    match n?.or how.anyNumber with
    | some n => closeValue how stack (.number n) ts
    | none => none
  | stack, .text s? :: ts =>
    match s?.or how.anyText with
    | some s => closeValue how stack (.text s) ts
    | none => none
  | stack, .openArray :: .closeArray :: ts =>
    if stack.length < how.maxDepth then closeValue how stack (.array []) ts else none
  | stack, .openArray :: ts =>
    if stack.length < how.maxDepth then readValue how (.array [] :: stack) ts else none
  | stack, .openObject :: .closeObject :: ts =>
    if stack.length < how.maxDepth then closeValue how stack (.object []) ts else none
  | stack, .openObject :: .text s? :: .colon :: ts =>
    match s?.or how.anyText with
    | some s =>
      if stack.length < how.maxDepth then readValue how (.object [] s :: stack) ts else none
    | none => none
  | _, _ => none

/-- Goes on after a finished value, which belongs to the innermost open container. -/
def closeValue (how : Strictness) : List Frame → Json → List Token → Option (Json × List Token)
  | [], v, ts => some (v, ts)
  | .array done :: stack, v, .comma :: ts => readValue how (.array (v :: done) :: stack) ts
  | .array done :: stack, v, .closeArray :: ts =>
    closeValue how stack (.array (v :: done).reverse) ts
  | .object done name :: stack, v, .comma :: .text s? :: .colon :: ts =>
    match s?.or how.anyText with
    | some s => readValue how (.object (setField name v done) s :: stack) ts
    | none => none
  | .object done name :: stack, v, .closeObject :: ts =>
    closeValue how stack (.object (setField name v done)) ts
  | _, _, _ => none

end

/-- Nothing but a value takes part in a text of its own. -/
def Strictness.strict (maxDepth : Nat) : Strictness := ⟨maxDepth, none, none⟩

/-- All that follows the grammar is accepted, for a value that nobody looks at. -/
def Strictness.lax (ts : List Token) : Strictness := ⟨ts.length, some (.integer 0), some ""⟩

def maxDepth : Nat := 127

/-- The value that a whole text stands for. -/
def parse (s : Bytes) : Option Json :=
  match readValue (.strict maxDepth) [] (tokens s) with
  | some (v, []) => some v
  | _ => none

theorem readValue_length (how : Strictness) (stack : List Frame) (ts : List Token) :
    ∀ v r, readValue how stack ts = some (v, r) → r.length < ts.length := by
  refine readValue.induct how
    (fun stack ts => ∀ v r, readValue how stack ts = some (v, r) → r.length < ts.length)
    (fun stack v ts => ∀ w r, closeValue how stack v ts = some (w, r) → r.length ≤ ts.length)
    ?null ?bool ?number ?noNumber ?text ?noText ?emptyArray ?deepEmptyArray ?array ?deepArray
    ?emptyObject ?deepEmptyObject ?object ?deepObject ?noName ?noValue
    ?outermost ?nextElement ?lastElement ?nextField ?noNextName ?lastField ?unclosed stack ts
  case null =>
    intro stack ts ih v r h
    rw [readValue] at h
    exact Nat.lt_succ_of_le (ih v r h)
  case bool =>
    intro stack b ts ih v r h
    rw [readValue] at h
    exact Nat.lt_succ_of_le (ih v r h)
  case number =>
    intro stack n? ts n hn ih v r h
    rw [readValue, hn] at h
    exact Nat.lt_succ_of_le (ih v r h)
  case noNumber =>
    intro stack n? ts hn v r h
    rw [readValue, hn] at h
    cases h
  case text =>
    intro stack s? ts s hs ih v r h
    rw [readValue, hs] at h
    exact Nat.lt_succ_of_le (ih v r h)
  case noText =>
    intro stack s? ts hs v r h
    rw [readValue, hs] at h
    cases h
  case emptyArray =>
    intro stack ts hd ih v r h
    rw [readValue, if_pos hd] at h
    exact Nat.lt_succ_of_lt (Nat.lt_succ_of_le (ih v r h))
  case deepEmptyArray =>
    intro stack ts hd v r h
    rw [readValue, if_neg hd] at h
    cases h
  case array =>
    intro stack ts hts hd ih v r h
    rw [readValue, if_pos hd] at h
    · exact Nat.lt_succ_of_lt (ih v r h)
    · exact hts
  case deepArray =>
    intro stack ts hts hd v r h
    rw [readValue, if_neg hd] at h
    · cases h
    · exact hts
  case emptyObject =>
    intro stack ts hd ih v r h
    rw [readValue, if_pos hd] at h
    exact Nat.lt_succ_of_lt (Nat.lt_succ_of_le (ih v r h))
  case deepEmptyObject =>
    intro stack ts hd v r h
    rw [readValue, if_neg hd] at h
    cases h
  case object =>
    intro stack s? ts s hs hd ih v r h
    rw [readValue, hs] at h
    have hlt := ih v r ((if_pos hd).symm.trans h)
    simp only [List.length_cons]
    omega
  case deepObject =>
    intro stack s? ts s hs hd v r h
    rw [readValue, hs] at h
    cases (if_neg hd).symm.trans h
  case noName =>
    intro stack s? ts hs v r h
    rw [readValue, hs] at h
    cases h
  case noValue =>
    intro ts stack h₁ h₂ h₃ h₄ h₅ h₆ h₇ h₈ v r h
    rw [readValue] at h
    · cases h
    all_goals assumption
  case outermost =>
    intro v ts w r h
    rw [closeValue] at h
    cases h
    exact Nat.le_refl _
  case nextElement =>
    intro done stack v ts ih w r h
    rw [closeValue] at h
    exact Nat.le_succ_of_le (Nat.le_of_lt (ih w r h))
  case lastElement =>
    intro done stack v ts ih w r h
    rw [closeValue] at h
    exact Nat.le_succ_of_le (ih w r h)
  case nextField =>
    intro done name stack v s? ts s hs ih w r h
    rw [closeValue, hs] at h
    have hlt := ih w r h
    simp only [List.length_cons]
    omega
  case noNextName =>
    intro done name stack v s? ts hs w r h
    rw [closeValue, hs] at h
    cases h
  case lastField =>
    intro done name stack v ts ih w r h
    rw [closeValue] at h
    exact Nat.le_succ_of_le (ih w r h)
  case unclosed =>
    intro ts stack v h₁ h₂ h₃ h₄ h₅ w r h
    rw [closeValue] at h
    · cases h
    all_goals assumption

end Curves.Json
