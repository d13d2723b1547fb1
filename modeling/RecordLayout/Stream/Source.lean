import RecordLayout.Stream.Bytes
import RecordLayout.Stream.Fault

/-!
# Sources

A source is what is left to read: bytes, and what a read meets once they are used up. It is read line
by line. A line that is not UTF-8 is used up and is a failure.
-/

namespace RecordLayout

structure Source where
  bytes : Bytes
  /-- The failure of a read behind the last byte; `none` is the end of the input. -/
  fault : Option IoFault := none
  deriving DecidableEq, Repr

namespace Source

def ofString (s : String) : Source := { bytes := Bytes.ofString s }

/-- The text of a line without its ending. -/
def lineText (line : Bytes) : Except IoFault String :=
  match (Bytes.stripEnding line).toString? with
  | some text => .ok text
  | none => .error .invalidUtf8

/-- What reading line after line gives, up to the first read that fails for good. A failing source
loses a last line without newline: the read that would finish it is the one that fails. -/
def lines (s : Source) : List (Except IoFault String) :=
  match s.fault with
  | none => s.bytes.lines.map lineText
  | some fault => (s.bytes.lines.filter Bytes.isEnded).map lineText ++ [.error fault]

/-- The source behind its first `n` lines. -/
def drop (n : Nat) (s : Source) : Source :=
  { s with bytes := (s.bytes.lines.drop n).flatten }

end Source

end RecordLayout
