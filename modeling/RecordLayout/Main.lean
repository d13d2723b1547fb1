import RecordLayout.CommandLine.Run

/-!
# The program

Takes a picture of the files that the options name, runs on the picture, and carries out what changed.
A run that waits for an answer is repeated with one line of input more.
-/

namespace RecordLayout.CommandLine

def usageMessage : UsageError → String
  | .unknownArgument text => s!"unexpected argument '{text}'"
  | .missingValue option => "a value is required for '" ++ option.long ++ "'"
  | .unexpectedValue option => "'" ++ option.long ++ "' takes no value"
  | .repeated option => "'" ++ option.long ++ "' is given twice"
  | .emptyPath => "a path must not be empty"
  | .refusedSize value fault => fault.message value
  | .conflict => "'--dir' cannot be used with a file"

def wording : Wording where
  help := "Usage: structgen [OPTIONS] [INPUT] [OUTPUT]\n"
  usage error := "error: " ++ usageMessage error ++ "\n"
  json _ := "not an object of sizes"

/-- The absolute path of a place. -/
def placePath (place : Place) : String := "/" ++ String.intercalate "/" place

/-- The names in the directory at a place; `none` if no directory is there. -/
def namesAt (place : Place) : IO (Option (List String)) := do
  try
    let entries ← (← IO.FS.realPath (placePath place)).readDir
    return some (entries.toList.map fun e => e.fileName)
  catch _ => return none

def contentAt (place : Place) : IO (Option Bytes) := do
  try
    let content ← IO.FS.readBinFile (placePath place)
    return some content.data.toList
  catch _ => return none

/-- Adds the directory at a place, if there is one. -/
def lookForDirectory (t : FileTree) (place : Place) : IO FileTree := do
  return if (← namesAt place).isSome then t.put place .directory else t

/-- Adds what stands at a place. -/
def look (t : FileTree) (place : Place) : IO FileTree := do
  if (← namesAt place).isSome then return t.put place .directory
  match ← contentAt place with
  | some content => return t.put place (.file content)
  | none => return t

/-- The places that a path goes through, from the first to the one it leads to. -/
def placesOn (t : FileTree) (path : String) : List Place :=
  let step (places : List Place × Place) (piece : String) : List Place × Place :=
    let place :=
      if piece = "" ∨ piece = "." then places.2
      else if piece = ".." then places.2.dropLast
      else places.2 ++ [piece]
    (places.1 ++ [place], place)
  ((Path.pieces path).foldl step ([], if Path.isAbsolute path then [] else t.workingDir)).1

/-- Adds what a path that is read goes through. -/
def lookAlong (t : FileTree) (path : String) : IO FileTree := (placesOn t path).foldlM look t

/-- Adds what a path that is written goes through. The file itself is not read. -/
def lookToward (t : FileTree) (path : String) : IO FileTree := do
  let places := placesOn t path
  let t ← places.dropLast.foldlM look t
  match places.getLast? with
  | some place => lookForDirectory t place
  | none => return t

/-- Adds a directory with the files and directories in it. -/
def lookInto (t : FileTree) (path : String) : IO FileTree := do
  let t ← lookAlong t path
  match (placesOn t path).getLast? with
  | none => return t
  | some place =>
    let names := (← namesAt place).getD []
    names.foldlM (fun t name => look t (place ++ [name])) t

/-- The picture of the files that options name. -/
def picture (o : Options) : IO FileTree := do
  let t := FileTree.ofWorkingDir ((Path.pieces (← IO.currentDir).toString).filter (· ≠ ""))
  let t ← (o.catalog.toList ++ (Options.file? o.input).toList).foldlM lookAlong t
  let t ← (Options.file? o.output).toList.foldlM lookToward t
  match o.dir with
  | some dir => lookInto (← lookInto t dir) o.outDir
  | none => return t

def emit (stream : IO.FS.Stream) (content : Bytes) : IO Unit := do
  stream.write ⟨content.toArray⟩
  stream.flush

/-- Reads to the end. -/
partial def readAll (stream : IO.FS.Stream) (before : Bytes) : IO Bytes := do
  let chunk ← stream.read 4096
  if chunk.isEmpty then return before else readAll stream (before ++ chunk.data.toList)

/-- Reads up to a newline or the end. -/
partial def readLine (stream : IO.FS.Stream) (before : Bytes) : IO Bytes := do
  let chunk ← stream.read 1
  let line := before ++ chunk.data.toList
  if chunk.isEmpty || Bytes.isEnded line then return line else readLine stream line

/-- Runs until no more input is asked for. The first `shown` bytes of the error stream are out. -/
partial def converse (arguments : List String) (w : World) (shown : Nat) : IO UInt32 := do
  let r := run wording arguments w
  emit (← IO.getStderr) (r.stderr.drop shown)
  if r.awaitsInput then
    let line ← readLine (← IO.getStdin) []
    let stdin : Source :=
      if line.isEmpty then { w.stdin with fault := none }
      else { w.stdin with bytes := w.stdin.bytes ++ line }
    converse arguments { w with stdin } r.stderr.length
  else
    for (place, content) in w.files.changes r.files do
      IO.FS.writeBinFile (placePath place) ⟨content.toArray⟩
    emit (← IO.getStdout) r.stdout
    return UInt32.ofNat r.code

/-- A whole run. Input that is not asked for is not read, and answers are read as they are needed. -/
def start (arguments : List String) : IO UInt32 := do
  match parse arguments with
  | .error _ => converse arguments ⟨.empty, { bytes := [] }, []⟩ 0
  | .ok o =>
    let files ← picture o
    let stdin : Source ←
      if o.isInteractive then pure { bytes := [], fault := some .inputPending }
      else if o.dir.isSome || (Options.file? o.input).isSome then pure { bytes := [] }
      else do pure { bytes := ← readAll (← IO.getStdin) [] }
    converse arguments ⟨files, stdin, []⟩ 0

end RecordLayout.CommandLine

def main (arguments : List String) : IO UInt32 := RecordLayout.CommandLine.start arguments
