import Curves.Json.Number

namespace Curves.Json

abbrev Bytes := List UInt8

inductive Token where
  | openArray
  | closeArray
  | openObject
  | closeObject
  | comma
  | colon
  | null
  | bool (b : Bool)
  /-- A number, with its value if that is in range. -/
  | number (value? : Option Number)
  /-- A string, with its text if that is Unicode. -/
  | text (value? : Option String)
  /-- The text goes on, but not as JSON. -/
  | bad

def isBlank (b : UInt8) : Bool :=
  b == 0x20 || b == 0x09 || b == 0x0A || b == 0x0D

def isDigit (b : UInt8) : Bool :=
  0x30 ≤ b && b ≤ 0x39

def digitValue (b : UInt8) : Nat :=
  b.toNat - 0x30

def hexValue? (b : UInt8) : Option Nat :=
  if isDigit b then some (digitValue b)
  else if 0x41 ≤ b && b ≤ 0x46 then some (b.toNat - 0x37)
  else if 0x61 ≤ b && b ≤ 0x66 then some (b.toNat - 0x57)
  else none

/-- A part of a string: a byte of its UTF-8 form, or an escaped UTF-16 unit. -/
inductive Piece where
  | byte (b : UInt8)
  | unit (n : Nat)

/-- The byte that a single-letter escape stands for. -/
def escape? (b : UInt8) : Option UInt8 :=
  if b == 0x22 || b == 0x5C || b == 0x2F then some b  -- quote, backslash, slash
  else if b == 0x62 then some 0x08                    -- b
  else if b == 0x66 then some 0x0C                    -- f
  else if b == 0x6E then some 0x0A                    -- n
  else if b == 0x72 then some 0x0D                    -- r
  else if b == 0x74 then some 0x09                    -- t
  else none

/-- The unit that four hexadecimal digits stand for. -/
def unit? (a b c d : UInt8) : Option Nat := do
  let a ← hexValue? a
  let b ← hexValue? b
  let c ← hexValue? c
  let d ← hexValue? d
  return ((a * 16 + b) * 16 + c) * 16 + d

/-- The pieces of a string up to its closing quote, and what follows that. -/
def pieces : Bytes → Option (List Piece × Bytes)
  | [] => none
  | 0x22 :: s => some ([], s)
  | 0x5C :: 0x75 :: a :: b :: c :: d :: s => do
    let n ← unit? a b c d
    let (ps, r) ← pieces s
    return (.unit n :: ps, r)
  | 0x5C :: b :: s => do
    let c ← escape? b
    let (ps, r) ← pieces s
    return (.byte c :: ps, r)
  | b :: s =>
    if b < 0x20 || b == 0x5C then none
    else do
      let (ps, r) ← pieces s
      return (.byte b :: ps, r)

def isHighSurrogate (n : Nat) : Bool := 0xD800 ≤ n && n < 0xDC00

def isLowSurrogate (n : Nat) : Bool := 0xDC00 ≤ n && n < 0xE000

def encodeCodePoint (n : Nat) : Bytes :=
  (String.singleton (Char.ofNat n)).toUTF8.toList

/-- The bytes of a string. Surrogates count only in pairs. -/
def encodePieces : List Piece → Option Bytes
  | [] => some []
  | .byte b :: ps => (encodePieces ps).map (b :: ·)
  | .unit n :: .unit m :: ps =>
    if isHighSurrogate n then
      if isLowSurrogate m then
        (encodePieces ps).map
          (encodeCodePoint (0x10000 + (n - 0xD800) * 0x400 + (m - 0xDC00)) ++ ·)
      else none
    else if isLowSurrogate n then none
    else (encodePieces (.unit m :: ps)).map (encodeCodePoint n ++ ·)
  | .unit n :: ps =>
    if isHighSurrogate n || isLowSurrogate n then none
    else (encodePieces ps).map (encodeCodePoint n ++ ·)

/-- The text that the pieces make up, if it is Unicode. -/
def textOfPieces (ps : List Piece) : Option String := do
  let bytes ← encodePieces ps
  String.fromUTF8? ⟨bytes.toArray⟩

theorem length_le_of_pieces {s r : Bytes} {ps : List Piece} (h : pieces s = some (ps, r)) :
    r.length ≤ s.length := by
  fun_induction pieces s generalizing ps r with
  | case1 => cases h
  | case2 s =>
    cases h
    exact Nat.le_succ _
  | case3 a b c d s ih =>
    obtain ⟨n, -, h⟩ := Option.bind_eq_some_iff.1 h
    obtain ⟨⟨qs, t⟩, hs, h⟩ := Option.bind_eq_some_iff.1 h
    cases h
    have hle := ih hs
    simp only [List.length_cons]
    omega
  | case4 b s _ ih =>
    obtain ⟨c, -, h⟩ := Option.bind_eq_some_iff.1 h
    obtain ⟨⟨qs, t⟩, hs, h⟩ := Option.bind_eq_some_iff.1 h
    cases h
    have hle := ih hs
    simp only [List.length_cons]
    omega
  | case5 => cases h
  | case6 b s _ _ _ _ ih =>
    obtain ⟨⟨qs, t⟩, hs, h⟩ := Option.bind_eq_some_iff.1 h
    cases h
    exact Nat.le_succ_of_le (ih hs)

def fraction? : Bytes → Option (Bytes × Bytes)
  | 0x2E :: s =>
    if (s.takeWhile isDigit).isEmpty then none
    else some (s.takeWhile isDigit, s.dropWhile isDigit)
  | s => some ([], s)

def naturalOfDigits (digits : Bytes) : Nat :=
  digits.foldl (fun n b => n * 10 + digitValue b) 0

def exponentSign : Bytes → Bool × Bytes
  | 0x2B :: s => (false, s)
  | 0x2D :: s => (true, s)
  | s => (false, s)

/-- The exponent, if there is one. -/
def exponent? : Bytes → Option (Option Int × Bytes)
  | b :: s =>
    if b == 0x65 || b == 0x45 then
      let (negative, s) := exponentSign s
      if (s.takeWhile isDigit).isEmpty then none
      else
        let n : Int := naturalOfDigits (s.takeWhile isDigit)
        some (some (if negative then -n else n), s.dropWhile isDigit)
    else some (none, b :: s)
  | [] => some (none, [])

/-- At least one digit, and no zero before another one. -/
def isWhole (digits : Bytes) : Bool :=
  match digits with
  | [] => false
  | [_] => true
  | b :: _ => b != 0x30

def numeral? (negative : Bool) (s : Bytes) : Option (Numeral × Bytes) :=
  if isWhole (s.takeWhile isDigit) then do
    let (fraction, r) ← fraction? (s.dropWhile isDigit)
    let (exponent, r) ← exponent? r
    return (⟨negative, (s.takeWhile isDigit).map digitValue, fraction.map digitValue, exponent⟩, r)
  else none

theorem length_le_of_fraction? {s r ds : Bytes} (h : fraction? s = some (ds, r)) :
    r.length ≤ s.length := by
  unfold fraction? at h
  split at h
  case h_1 s =>
    split at h
    case isTrue => cases h
    case isFalse =>
      cases h
      exact Nat.le_succ_of_le (s.dropWhile_sublist isDigit).length_le
  case h_2 =>
    cases h
    exact Nat.le_refl _

theorem length_exponentSign_le (s : Bytes) : (exponentSign s).2.length ≤ s.length := by
  unfold exponentSign
  split
  case h_1 | h_2 => exact Nat.le_succ _
  case h_3 => exact Nat.le_refl _

theorem length_le_of_exponent? {s r : Bytes} {e : Option Int} (h : exponent? s = some (e, r)) :
    r.length ≤ s.length := by
  unfold exponent? at h
  split at h
  case h_1 b s =>
    have hsign := length_exponentSign_le s
    split at h
    case isTrue =>
      dsimp only at h
      split at h
      case isTrue => cases h
      case isFalse =>
        cases h
        have hdigits := ((exponentSign s).2.dropWhile_sublist isDigit).length_le
        exact Nat.le_succ_of_le (Nat.le_trans hdigits hsign)
    case isFalse =>
      cases h
      exact Nat.le_refl _
  case h_2 =>
    cases h
    exact Nat.le_refl _

theorem length_lt_of_numeral? {negative : Bool} {s r : Bytes} {n : Numeral}
    (h : numeral? negative s = some (n, r)) : r.length < s.length := by
  unfold numeral? at h
  split at h
  case isTrue hw =>
    have hlen : (s.dropWhile isDigit).length < s.length := by
      have hsum := congrArg List.length (@List.takeWhile_append_dropWhile _ isDigit s)
      rw [List.length_append] at hsum
      cases ht : s.takeWhile isDigit with
      | nil => simp [isWhole, ht] at hw
      | cons b ds => simp [ht] at hsum; omega
    simp only [Option.bind_eq_bind, Option.bind_eq_some_iff] at h
    obtain ⟨⟨ds, r₁⟩, hf, ⟨e, r₂⟩, he, heq⟩ := h
    have h₁ := length_le_of_fraction? hf
    have h₂ := length_le_of_exponent? he
    simp only [Option.pure_def, Option.some.injEq, Prod.mk.injEq] at heq
    obtain ⟨-, rfl⟩ := heq
    simp only at h₂
    omega
  case isFalse => simp at h

def afterWord? : (word s : Bytes) → Option Bytes
  | [], s => some s
  | _ :: _, [] => none
  | a :: word, b :: s => if a == b then afterWord? word s else none

theorem length_le_of_afterWord? {word s r : Bytes} (h : afterWord? word s = some r) :
    r.length ≤ s.length := by
  fun_induction afterWord? word s with
  | case1 s =>
    cases h
    exact Nat.le_refl _
  | case2 => cases h
  | case3 a word b s _ ih => exact Nat.le_succ_of_le (ih h)
  | case4 => cases h

/-- The token that begins with the byte `b`, and what follows it. -/
def token? (b : UInt8) (s : Bytes) : Option (Token × Bytes) :=
  match b with
  | 0x5B => some (.openArray, s)
  | 0x5D => some (.closeArray, s)
  | 0x7B => some (.openObject, s)
  | 0x7D => some (.closeObject, s)
  | 0x2C => some (.comma, s)
  | 0x3A => some (.colon, s)
  | 0x22 => (pieces s).map fun (ps, r) => (.text (textOfPieces ps), r)
  | 0x2D => (numeral? true s).map fun (n, r) => (.number n.value?, r)
  | 0x6E => (afterWord? [0x75, 0x6C, 0x6C] s).map fun r => (.null, r)
  | 0x74 => (afterWord? [0x72, 0x75, 0x65] s).map fun r => (.bool true, r)
  | 0x66 => (afterWord? [0x61, 0x6C, 0x73, 0x65] s).map fun r => (.bool false, r)
  | b => (numeral? false (b :: s)).map fun (n, r) => (.number n.value?, r)

theorem length_le_of_token? {b : UInt8} {s r : Bytes} {t : Token} (h : token? b s = some (t, r)) :
    r.length ≤ s.length := by
  unfold token? at h
  split at h
  case h_1 | h_2 | h_3 | h_4 | h_5 | h_6 =>
    cases h
    exact Nat.le_refl _
  case h_7 =>
    obtain ⟨⟨ps, r⟩, hps, heq⟩ := Option.map_eq_some_iff.1 h
    cases heq
    exact length_le_of_pieces hps
  case h_8 =>
    obtain ⟨⟨n, r⟩, hn, heq⟩ := Option.map_eq_some_iff.1 h
    cases heq
    exact Nat.le_of_lt (length_lt_of_numeral? hn)
  case h_9 | h_10 | h_11 =>
    obtain ⟨r, hr, heq⟩ := Option.map_eq_some_iff.1 h
    cases heq
    exact length_le_of_afterWord? hr
  case h_12 =>
    obtain ⟨⟨n, r⟩, hn, heq⟩ := Option.map_eq_some_iff.1 h
    cases heq
    exact Nat.le_of_lt_succ (length_lt_of_numeral? hn)

/-- The tokens of a text. -/
def tokens : Bytes → List Token
  | [] => []
  | b :: s =>
    if isBlank b then tokens s
    else
      match _h : token? b s with
      | none => [.bad]
      | some (t, r) => t :: tokens r
termination_by s => s.length
decreasing_by
  · simp
  · have := length_le_of_token? _h
    simp only [List.length_cons]
    omega

end Curves.Json
