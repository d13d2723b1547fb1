/-!
# Decimal integers in text

Reading a signed 64-bit integer, with the first thing that is wrong with it.
-/

namespace RecordLayout.Text

/-- The number that a run of decimal digits stands for. -/
def natOfDigits (cs : List Char) : Nat :=
  cs.foldl (fun n c => 10 * n + (c.toNat - '0'.toNat)) 0

/-- Why a text is no 64-bit integer. -/
inductive IntegerFault where
  | empty
  | invalidDigit
  | tooLarge
  | tooSmall
  deriving DecidableEq, Repr

def IntegerFault.message : IntegerFault → String
  | .empty => "cannot parse integer from empty string"
  | .invalidDigit => "invalid digit found in string"
  | .tooLarge => "number too large to fit in target type"
  | .tooSmall => "number too small to fit in target type"

/-- Reads digits onto `n`. The first digit that leads past `limit`, or the first character that is no
digit, decides the fault. -/
def readMagnitude (limit : Nat) (past : IntegerFault) : Nat → List Char → Except IntegerFault Nat
  | n, [] => .ok n
  | n, c :: cs =>
    if c.isDigit then
      let m := 10 * n + (c.toNat - '0'.toNat)
      if m ≤ limit then readMagnitude limit past m cs else .error past
    else .error .invalidDigit

/-- An optional sign, then at least one digit, within the range of 64 bits. -/
def readInteger (cs : List Char) : Except IntegerFault Int :=
  match cs with
  | [] => .error .empty
  | '+' :: [] | '-' :: [] => .error .invalidDigit
  | '+' :: ds => Int.ofNat <$> readMagnitude (UInt64.size / 2 - 1) .tooLarge 0 ds
  | '-' :: ds => (fun n => -Int.ofNat n) <$> readMagnitude (UInt64.size / 2) .tooSmall 0 ds
  | ds => Int.ofNat <$> readMagnitude (UInt64.size / 2 - 1) .tooLarge 0 ds

end RecordLayout.Text
