/-!
# Byte strings and their lines

A line ends behind its newline byte; the last one may lack it. Putting the lines together again gives
the byte string back (`flatten_lines`).
-/

namespace RecordLayout

abbrev Bytes := List UInt8

namespace Bytes

def ofString (s : String) : Bytes := s.toUTF8.data.toList

def toString? (b : Bytes) : Option String := String.fromUTF8? ⟨b.toArray⟩

def newline : UInt8 := 10

def carriageReturn : UInt8 := 13

/-- Puts a byte in front of lines: it opens a line of its own only if it is a newline, or if nothing
follows. -/
def consByte (b : UInt8) : List Bytes → List Bytes
  | [] => [[b]]
  | l :: ls => if b = newline then [b] :: l :: ls else (b :: l) :: ls

/-- The lines, each with its newline. -/
def lines (b : Bytes) : List Bytes := b.foldr consByte []

/-- Whether a line has its newline. -/
def isEnded (line : Bytes) : Bool := line.getLast? == some newline

/-- A line without its ending: the newline, and one carriage return in front of it. -/
def stripEnding (line : Bytes) : Bytes :=
  match line.reverse with
  | [] => []
  | b :: rest =>
    if b = newline then
      match rest with
      | [] => []
      | c :: rest' => if c = carriageReturn then rest'.reverse else (c :: rest').reverse
    else line

theorem flatten_consByte (b : UInt8) (ls : List Bytes) :
    (consByte b ls).flatten = b :: ls.flatten := by
  cases ls with
  | nil => rfl
  | cons l ls => by_cases h : b = newline <;> simp [consByte, h]

@[simp] theorem flatten_lines (b : Bytes) : b.lines.flatten = b := by
  induction b with
  | nil => rfl
  | cons x b ih => rw [lines, List.foldr_cons, flatten_consByte, ← lines, ih]

end Bytes

end RecordLayout
