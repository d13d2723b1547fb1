import RecordLayout.Field
import RecordLayout.SizeCatalog.Basic
import RecordLayout.Text.Integer

/-!
# Catalogs as JSON

A catalog is saved as one JSON object from names to sizes, an entry to a line. Loading takes any such
object: names with any escape, sizes written as plain decimal numbers up to `maxSize`.
-/

namespace RecordLayout.SizeCatalog

namespace Json

/-! ### Writing -/

/-- Two hexadecimal digits. -/
def hexPair (n : Nat) : List Char := [Nat.digitChar (n / 16), Nat.digitChar (n % 16)]

def writeChar (c : Char) : List Char :=
  if c = '"' then ['\\', '"']
  else if c = '\\' then ['\\', '\\']
  else if c = '\x08' then ['\\', 'b']
  else if c = '\t' then ['\\', 't']
  else if c = '\n' then ['\\', 'n']
  else if c = '\x0c' then ['\\', 'f']
  else if c = '\r' then ['\\', 'r']
  else if c.toNat < 0x20 then ['\\', 'u', '0', '0'] ++ hexPair c.toNat
  else [c]

def writeString (cs : List Char) : List Char := '"' :: cs.flatMap writeChar ++ ['"']

def writeEntry (e : String × Nat) : List Char :=
  [' ', ' '] ++ writeString e.1.toList ++ [':', ' '] ++ Nat.toDigits 10 e.2

def writeEntries : List (String × Nat) → List Char
  | [] => []
  | [e] => writeEntry e ++ ['\n']
  | e :: es => writeEntry e ++ [',', '\n'] ++ writeEntries es

/-! ### Reading -/

def isSpace (c : Char) : Bool := c = ' ' || c = '\n' || c = '\t' || c = '\r'

def skipSpace (cs : List Char) : List Char := cs.dropWhile isSpace

def hexValue? (c : Char) : Option Nat :=
  if c.isDigit then some (c.toNat - '0'.toNat)
  else if 'a' ≤ c ∧ c ≤ 'f' then some (c.toNat - 'a'.toNat + 10)
  else if 'A' ≤ c ∧ c ≤ 'F' then some (c.toNat - 'A'.toNat + 10)
  else none

/-- The number of four hexadecimal digits. -/
def unit? (a b c d : Char) : Option Nat := do
  return (((← hexValue? a) * 16 + (← hexValue? b)) * 16 + (← hexValue? c)) * 16 + (← hexValue? d)

/-- The character that a backslash and one letter stand for. -/
def shortEscape? (c : Char) : Option Char :=
  if c = '"' ∨ c = '\\' ∨ c = '/' then some c
  else if c = 'b' then some '\x08'
  else if c = 't' then some '\t'
  else if c = 'n' then some '\n'
  else if c = 'f' then some '\x0c'
  else if c = 'r' then some '\r'
  else none

def isHighSurrogate (n : Nat) : Bool := 0xD800 ≤ n && n < 0xDC00

def isLowSurrogate (n : Nat) : Bool := 0xDC00 ≤ n && n < 0xE000

/-- A character in front of what was read behind it. -/
def push (c : Char) (r : Option (List Char × List Char)) : Option (List Char × List Char) :=
  r.map fun (s, rest) => (c :: s, rest)

/-- Reads a string behind its opening quote, up to its closing quote. -/
def readString : List Char → Option (List Char × List Char)
  | [] => none
  | '"' :: rest => some ([], rest)
  | '\\' :: 'u' :: a :: b :: c :: d :: rest =>
    match unit? a b c d with
    | none => none
    | some n =>
      if isHighSurrogate n then
        match rest with
        | '\\' :: 'u' :: e :: f :: g :: h :: rest =>
          match unit? e f g h with
          | none => none
          | some m =>
            if isLowSurrogate m then
              push (Char.ofNat (0x10000 + (n - 0xD800) * 0x400 + (m - 0xDC00))) (readString rest)
            else none
        | _ => none
      else if isLowSurrogate n then none
      else push (Char.ofNat n) (readString rest)
  | '\\' :: e :: rest =>
    match shortEscape? e with
    | none => none
    | some c => push c (readString rest)
  | c :: rest =>
    if c.toNat < 0x20 then none else push c (readString rest)

/-- Reads a size: decimal digits without a leading zero. -/
def readSize (cs : List Char) : Option (Nat × List Char) :=
  let ds := cs.takeWhile Char.isDigit
  let n := Text.natOfDigits ds
  if ds.isEmpty || (ds.length > 1 && ds.head? == some '0') || maxSize < n then none
  else some (n, cs.dropWhile Char.isDigit)

/-- Reads what a given character starts. -/
def expect (c : Char) (cs : List Char) : Option (List Char) :=
  match cs with
  | [] => none
  | d :: rest => if d = c then some rest else none

/-- Reads a name, a colon and a size, with the space around them. -/
def readEntry (cs : List Char) : Option ((String × Nat) × List Char) := do
  let cs ← expect '"' (skipSpace cs)
  let (name, cs) ← readString cs
  let cs ← expect ':' (skipSpace cs)
  let (size, cs) ← readSize (skipSpace cs)
  return ((String.ofList name, size), skipSpace cs)

/-! Each reader leaves a shorter text. -/

theorem length_dropWhile_le {α : Type} (p : α → Bool) (l : List α) :
    (l.dropWhile p).length ≤ l.length :=
  (List.dropWhile_sublist p).length_le

theorem length_skipSpace_le (cs : List Char) : (skipSpace cs).length ≤ cs.length :=
  length_dropWhile_le _ _

theorem length_lt_of_expect {c : Char} {cs rest : List Char} (h : expect c cs = some rest) :
    rest.length < cs.length := by
  cases cs with
  | nil => simp [expect] at h
  | cons d ds =>
    simp only [expect] at h
    split at h
    · cases h; simp
    · cases h

theorem push_eq_some_iff {c : Char} {r : Option (List Char × List Char)} {s rest : List Char} :
    push c r = some (s, rest) ↔ ∃ t, r = some (t, rest) ∧ s = c :: t := by
  cases r with
  | none => simp [push]
  | some p => cases p; simp [push]; grind

theorem length_le_of_push {c : Char} {r : Option (List Char × List Char)} {s rest : List Char} {n : Nat}
    (hr : ∀ {s rest}, r = some (s, rest) → rest.length ≤ n) (h : push c r = some (s, rest)) :
    rest.length ≤ n := by
  obtain ⟨t, ht, -⟩ := push_eq_some_iff.mp h
  exact hr ht

theorem length_le_of_readString {cs s rest : List Char} (h : readString cs = some (s, rest)) :
    rest.length ≤ cs.length := by
  fun_induction readString cs generalizing s rest with
  | case2 => cases h; simp
  | case5 _ _ _ _ _ _ _ _ _ _ _ _ _ _ _ ih =>
    have := length_le_of_push ih h
    simp only [List.length_cons]; omega
  | case9 _ _ _ _ _ _ _ _ _ ih =>
    have := length_le_of_push ih h
    simp only [List.length_cons]; omega
  | case11 _ _ _ _ _ ih =>
    have := length_le_of_push ih h
    simp only [List.length_cons]; omega
  | case13 _ _ _ _ _ _ ih =>
    have := length_le_of_push ih h
    simp only [List.length_cons]; omega
  | _ => cases h

theorem length_le_of_readSize {cs rest : List Char} {n : Nat} (h : readSize cs = some (n, rest)) :
    rest.length ≤ cs.length := by
  simp only [readSize] at h
  split at h
  · cases h
  · cases h; exact length_dropWhile_le _ _

theorem length_lt_of_readEntry {cs rest : List Char} {e : String × Nat}
    (h : readEntry cs = some (e, rest)) : rest.length < cs.length := by
  simp only [readEntry, Option.bind_eq_bind, Option.bind_eq_some_iff] at h
  obtain ⟨c₁, h₁, ⟨_, c₂⟩, h₂, c₃, h₃, ⟨_, c₄⟩, h₄, h₅⟩ := h
  cases h₅
  have := length_lt_of_expect h₁
  have := length_le_of_readString h₂
  have := length_lt_of_expect h₃
  have := length_le_of_readSize h₄
  have := length_skipSpace_le cs
  have := length_skipSpace_le c₂
  have := length_skipSpace_le c₃
  have := length_skipSpace_le c₄
  dsimp only at *
  omega

/-- Reads entries, with commas between them, up to the closing brace. -/
def readEntries (cs : List Char) : Option (List (String × Nat) × List Char) :=
  match _h : readEntry cs with
  | none => none
  | some (_, []) => none
  | some (e, c :: rest) =>
    if c = '\x7d' then some ([e], rest)
    else if c = ',' then (readEntries rest).map fun (es, r) => (e :: es, r)
    else none
termination_by cs.length
decreasing_by
  have := length_lt_of_readEntry _h
  simp only [List.length_cons] at this
  omega

/-- Reads an object as a whole, with space around it and nothing else. -/
def readObject (cs : List Char) : Option (List (String × Nat)) := do
  let cs ← expect '\x7b' (skipSpace cs)
  let (es, cs) ←
    match expect '\x7d' (skipSpace cs) with
    | some rest => some ([], rest)
    | none => readEntries cs
  if (skipSpace cs).isEmpty then some es else none

end Json

/-- The saved form of a catalog, without the newline at the end of the file. -/
def toJson (c : SizeCatalog) : String :=
  if c.entries.isEmpty then "\x7b\x7d"
  else String.ofList ('\x7b' :: '\n' :: Json.writeEntries c.entries ++ ['\x7d'])

/-- The catalog of a saved form; `none` if the text is no object of sizes. -/
def ofJson? (text : String) : Option SizeCatalog :=
  (Json.readObject text.toList).map ofEntries

end RecordLayout.SizeCatalog
