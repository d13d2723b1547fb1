import RecordLayout.Field
import RecordLayout.Text.Blank

/-!
# The layout table

Five columns, as wide as their widest cell or title, one space apart. Numbers stand to the right, and
no line has blanks at its end.
-/

namespace RecordLayout

inductive Column where
  | offset
  | size
  | type
  | identifier
  | description
  deriving DecidableEq, Repr

namespace Column

def all : List Column := [.offset, .size, .type, .identifier, .description]

def title : Column → String
  | .offset => "Offset"
  | .size => "Size"
  | .type => "Type"
  | .identifier => "Identifier"
  | .description => "Description"

def cell (f : Field) : Column → String
  | .offset => toString f.offset
  | .size => f.sizeCell
  | .type => f.typeCell
  | .identifier => f.identifier
  | .description => f.description

/-- Cells of fields stand at the right end of the column. -/
def isNumeric : Column → Bool
  | .offset | .size => true
  | _ => false

end Column

namespace FieldTable

def spaces (n : Nat) : String := String.ofList (List.replicate n ' ')

def padRight (width : Nat) (s : String) : String := s ++ spaces (width - s.length)

def padLeft (width : Nat) (s : String) : String := spaces (width - s.length) ++ s

def width (fields : List Field) (c : Column) : Nat :=
  fields.foldl (fun w f => max w (c.cell f).length) c.title.length

/-- The width of a line with all its padding. -/
def totalWidth (fields : List Field) : Nat :=
  Column.all.foldl (fun n c => n + width fields c) (Column.all.length - 1)

def line (cells : List String) : String := trimmedEnd (String.intercalate " " cells)

def titleLine (fields : List Field) : String :=
  line (Column.all.map fun c => padRight (width fields c) c.title)

def rule (fields : List Field) : String :=
  String.ofList (List.replicate (totalWidth fields) '-')

def fieldLine (fields : List Field) (f : Field) : String :=
  line (Column.all.map fun c =>
    if c.isNumeric then padLeft (width fields c) (c.cell f) else padRight (width fields c) (c.cell f))

/-- Titles, a rule, and a line for each field. -/
def lines (fields : List Field) : List String :=
  titleLine fields :: rule fields :: fields.map (fieldLine fields)

def render (fields : List Field) : String := String.join ((lines fields).map (· ++ "\n"))

end FieldTable

end RecordLayout
