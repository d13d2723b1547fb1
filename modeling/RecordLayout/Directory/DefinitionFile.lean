import RecordLayout.Definition.Line
import RecordLayout.Path
import RecordLayout.Text.Line

/-!
# Definition files

What a quick look at a definition tells: the name of its record and the types that it uses.
-/

namespace RecordLayout

structure DefinitionFile where
  path : String
  /-- The second word of the first line. -/
  recordName : Option String
  /-- The first word of every later line before the terminator. -/
  memberTypes : List String
  deriving DecidableEq, Repr

namespace DefinitionFile

/-- The lines of a text. -/
def textLines (text : String) : List String := (Text.lines text.toList).map String.ofList

def ofText (path text : String) : DefinitionFile :=
  let ls := textLines text
  { path
    recordName := ls.head?.bind fun l => (Text.words l.toList)[1]?.map String.ofList
    memberTypes := ((ls.tail.map trimmed).takeWhile (· ≠ terminator)).filterMap fun l =>
      (Text.words l.toList).head?.map String.ofList }

/-- The extension of definition files. -/
def inputExtension : String := "struct"

/-- The extension of files with record code. -/
def outputExtension : String := "rs"

/-- Where the record code of a file goes. -/
def outputPath (input outDir : String) : String :=
  Path.join outDir ((Path.stem? input).getD input ++ "." ++ outputExtension)

end DefinitionFile

end RecordLayout
