/-!
# Blanks and tokens

A blank is a character with Unicode's `White_Space` property. A token is a maximal run of characters
that are not blank.
-/

namespace RecordLayout

/-- The 25 characters of `White_Space`. -/
def isBlank (c : Char) : Bool :=
  let n := c.toNat
  (9 ≤ n && n ≤ 13) || n == 0x20 || n == 0x85 || n == 0xA0 || n == 0x1680 ||
    (0x2000 ≤ n && n ≤ 0x200A) || n == 0x2028 || n == 0x2029 || n == 0x202F || n == 0x205F ||
    n == 0x3000

def isInk (c : Char) : Bool := !isBlank c

namespace Text

def trimStart (cs : List Char) : List Char := cs.dropWhile isBlank

def trimEnd (cs : List Char) : List Char := (cs.reverse.dropWhile isBlank).reverse

def trim (cs : List Char) : List Char := trimEnd (trimStart cs)

/-- The token at the very start; empty if there is none. -/
def token (cs : List Char) : List Char := cs.takeWhile isInk

/-- What follows the token at the very start. -/
def afterToken (cs : List Char) : List Char := cs.dropWhile isInk

/-- A list that must not be empty to count. -/
def nonempty? (cs : List Char) : Option (List Char) :=
  if cs.isEmpty then none else some cs

def firstToken? (cs : List Char) : Option (List Char) :=
  nonempty? (token (trimStart cs))

def secondToken? (cs : List Char) : Option (List Char) :=
  firstToken? (afterToken (trimStart cs))

end Text

/-- `s` without the blanks at its two ends. -/
def trimmed (s : String) : String := String.ofList (Text.trim s.toList)

/-- `s` without the blanks at its end. -/
def trimmedEnd (s : String) : String := String.ofList (Text.trimEnd s.toList)

end RecordLayout
