/-!
# Paths

A path is a text of parts between slashes. Empty parts and parts that are a point mean nothing, except
a point at the very start.
-/

namespace RecordLayout.Path

inductive Part where
  /-- A slash at the start. -/
  | root
  /-- A point at the start. -/
  | here
  /-- Two points. -/
  | up
  | name (text : String)
  deriving DecidableEq, Repr

def isAbsolute (path : String) : Bool := path.toList.head? == some '/'

/-- Cuts a text at each slash. -/
def cut : List Char → List (List Char)
  | [] => [[]]
  | c :: cs =>
    match cut cs with
    | [] => [[c]]
    | p :: ps => if c = '/' then [] :: p :: ps else (c :: p) :: ps

/-- The texts between the slashes. -/
def pieces (path : String) : List String := (cut path.toList).map String.ofList

def part? (piece : String) : Option Part :=
  if piece = "" ∨ piece = "." then none else if piece = ".." then some .up else some (.name piece)

def parts (path : String) : List Part :=
  let start : List Part :=
    if isAbsolute path then [.root] else if (pieces path).head? = some "." then [.here] else []
  start ++ (pieces path).filterMap part?

/-- The name of the file that a path leads to. -/
def fileName? (path : String) : Option String :=
  match (parts path).getLast? with
  | some (.name text) => some text
  | _ => none

/-- Cuts a name at its last point. A point at the very start does not count. -/
def splitName (name : String) : String × Option String :=
  let cs := name.toList
  let after := cs.reverse.takeWhile (· != '.')
  match cs.reverse.dropWhile (· != '.') with
  | [] | [_] => (name, none)
  | _ :: before => (String.ofList before.reverse, some (String.ofList after.reverse))

/-- The file name without its extension. -/
def stem? (path : String) : Option String := (fileName? path).map fun n => (splitName n).1

/-- What follows the last point of the file name. -/
def extension? (path : String) : Option String := (fileName? path).bind fun n => (splitName n).2

/-- A path from inside a directory; an absolute one stands by itself. -/
def join (dir path : String) : String :=
  if isAbsolute path then path
  else if dir = "" ∨ dir.toList.getLast? = some '/' then dir ++ path
  else dir ++ "/" ++ path

end RecordLayout.Path
