import RecordLayout.Code.Name
import RecordLayout.Field

/-!
# Statements that read and write fields

Each field is read by one statement and written by one. A statement holds the positions it uses,
counted from the offset of the record, so that it has both a text (`lines`) and, over a byte buffer, a
meaning.
-/

namespace RecordLayout

namespace Code

/-- How the elements of a field are stored. -/
inductive Storage where
  /-- A record, by its own code. -/
  | record
  /-- A single byte. -/
  | byte
  /-- Several bytes, big-endian. -/
  | scalar
  deriving DecidableEq, Repr

/-- One line, `depth` steps to the right. -/
def indent (depth : Nat) (line : String) : String :=
  if line = "" then "" else String.ofList (List.replicate (4 * depth) ' ') ++ line

/-- A position behind the offset of the record. -/
def position (n : Nat) : String := if n = 0 then "offset" else s!"offset + {n}"

/-- The position of element `i` of an array. -/
def elementPosition (first stride : Nat) : String := position first ++ s!" + i * {stride}"

def range (first last : Nat) : String := position first ++ ".." ++ position last

inductive ReadStatement where
  | record (field : String) (pos : Nat)
  | byte (field : String) (pos : Nat)
  | scalar (field : String) (pos : Nat)
  | bytes (field : String) (first last : Nat)
  | eachRecord (field : String) (first stride : Nat)
  | eachScalar (field : String) (first stride : Nat)
  deriving DecidableEq, Repr

inductive WriteStatement where
  | record (field : String) (pos : Nat)
  | scalar (field : String) (pos : Nat)
  | bytes (field : String) (first last : Nat)
  | eachRecord (field : String) (first stride : Nat)
  | eachScalar (field : String) (first stride : Nat)
  deriving DecidableEq, Repr

namespace ReadStatement

def lines : ReadStatement → List String
  | .record field pos =>
    [indent 2 ("self." ++ field ++ ".read_from(buffer, " ++ position pos ++ ");")]
  | .byte field pos => [indent 2 ("self." ++ field ++ " = buffer[" ++ position pos ++ "];")]
  | .scalar field pos =>
    [indent 2 ("self." ++ field ++ " = record::read_be(buffer, " ++ position pos ++ ");")]
  | .bytes field first last =>
    [indent 2 ("self." ++ field ++ ".copy_from_slice(&buffer[" ++ range first last ++ "]);")]
  | .eachRecord field first stride =>
    [indent 2 ("for (i, item) in self." ++ field ++ ".iter_mut().enumerate() \x7b"),
     indent 3 ("item.read_from(buffer, " ++ elementPosition first stride ++ ");"),
     indent 2 "\x7d"]
  | .eachScalar field first stride =>
    [indent 2 ("for (i, item) in self." ++ field ++ ".iter_mut().enumerate() \x7b"),
     indent 3 ("*item = record::read_be(buffer, " ++ elementPosition first stride ++ ");"),
     indent 2 "\x7d"]

end ReadStatement

namespace WriteStatement

def lines : WriteStatement → List String
  | .record field pos =>
    [indent 2 ("self." ++ field ++ ".write_to(buffer, " ++ position pos ++ ");")]
  | .scalar field pos =>
    [indent 2 ("record::write_be(self." ++ field ++ ", buffer, " ++ position pos ++ ");")]
  | .bytes field first last =>
    [indent 2 ("buffer[" ++ range first last ++ "].copy_from_slice(&self." ++ field ++ ");")]
  | .eachRecord field first stride =>
    [indent 2 ("for (i, item) in self." ++ field ++ ".iter().enumerate() \x7b"),
     indent 3 ("item.write_to(buffer, " ++ elementPosition first stride ++ ");"),
     indent 2 "\x7d"]
  | .eachScalar field first stride =>
    [indent 2 ("for (i, item) in self." ++ field ++ ".iter().enumerate() \x7b"),
     indent 3 ("record::write_be(*item, buffer, " ++ elementPosition first stride ++ ");"),
     indent 2 "\x7d"]

end WriteStatement

end Code

namespace Field

open Code

def storage (f : Field) : Storage :=
  if f.isRecord then .record else if f.elementSize = 1 then .byte else .scalar

/-- The name of the field in record code. -/
def codeName (f : Field) : String := fieldName f.identifier

def readStatement (f : Field) : ReadStatement :=
  match f.storage, f.isArray with
  | .record, false => .record f.codeName f.offset
  | .byte, false => .byte f.codeName f.offset
  | .scalar, false => .scalar f.codeName f.offset
  | .byte, true => .bytes f.codeName f.offset f.stop
  | .record, true => .eachRecord f.codeName f.offset f.elementSize
  | .scalar, true => .eachScalar f.codeName f.offset f.elementSize

def writeStatement (f : Field) : WriteStatement :=
  match f.storage, f.isArray with
  | .record, false => .record f.codeName f.offset
  | .byte, false | .scalar, false => .scalar f.codeName f.offset
  | .byte, true => .bytes f.codeName f.offset f.stop
  | .record, true => .eachRecord f.codeName f.offset f.elementSize
  | .scalar, true => .eachScalar f.codeName f.offset f.elementSize

end Field

end RecordLayout
