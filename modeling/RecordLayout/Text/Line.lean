import RecordLayout.Text.Blank

/-!
# Lines and words of a text

A line ends at a newline, and a carriage return in front of it belongs to the ending. Behind the last
newline there is one more line only if it is not empty. Words are the pieces between blanks.
-/

namespace RecordLayout.Text

/-- A line without a carriage return at its end. -/
def stripReturn (line : List Char) : List Char :=
  if line.getLast? = some '\r' then line.dropLast else line

/-- The lines of a text that was cut at its newlines. -/
def endLines : List (List Char) → List (List Char)
  | [] => []
  | [last] => if last.isEmpty then [] else [last]
  | line :: rest => stripReturn line :: endLines rest

def lines (cs : List Char) : List (List Char) := endLines (cs.splitOn '\n')

/-- The words of a text. -/
def words (cs : List Char) : List (List Char) := (cs.splitOnP isBlank).filter fun word => !word.isEmpty

end RecordLayout.Text
