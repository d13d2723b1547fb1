import RecordLayout.Conversion
import RecordLayout.Directory.DependencyOrder
import RecordLayout.FileTree

/-!
# Converting a directory

All definition files of a directory are converted by one conversion, in dependency order. The first
failure stops the run; the files written before it stay.
-/

namespace RecordLayout

inductive DirectoryError where
  | io (path : String) (fault : IoFault)
  | definition (path : String) (error : DefinitionError)
  deriving DecidableEq, Repr

def DirectoryError.message : DirectoryError → String
  | .io path fault => s!"{path}: " ++ fault.message
  | .definition path error => s!"{path}: " ++ error.message

/-- A conversion and the files it works on. -/
structure Workspace (ρ : Type) where
  conversion : Conversion ρ
  files : FileTree

namespace Workspace

/-- The definition files directly inside a directory, by name. What cannot be reached by its path is no
file. -/
def definitionPaths (t : FileTree) (dir : String) : Except DirectoryError (List String) := do
  let names ← (t.list dir).mapError (DirectoryError.io dir)
  let found := names.filter fun name =>
    Path.extension? name = some DefinitionFile.inputExtension && t.isFile (Path.join dir name)
  return (found.mergeSort fun a b => decide (a ≤ b)).map (Path.join dir)

def scan (t : FileTree) (path : String) : Except DirectoryError DefinitionFile := do
  let text ← (t.readText path).mapError (DirectoryError.io path)
  return DefinitionFile.ofText path text

variable {ρ : Type} [SizeSource ρ]

/-- Converts one file and tells where its record code went. -/
def convertFile (outDir : String) (file : DefinitionFile) :
    Action (Workspace ρ) DirectoryError String := do
  let source ← .ofExcept (((← .state).files.openFile file.path).mapError (DirectoryError.io file.path))
  let d ← Action.within conversion (fun w c => { w with conversion := c })
    (Action.mapError (DirectoryError.definition file.path) (Conversion.readFrom source))
  let out := DefinitionFile.outputPath file.path outDir
  let w ← .state
  let files ← .ofExcept ((w.files.write out (Bytes.ofString (w.conversion.render d))).mapError
    (DirectoryError.io out))
  .update fun w => { w with files := files }
  .log .info .directory s!"{file.path} -> {out}"
  return out

def convertFiles (outDir : String) :
    List DefinitionFile → Action (Workspace ρ) DirectoryError (List String)
  | [] => return []
  | file :: rest => do
    let out ← convertFile outDir file
    return out :: (← convertFiles outDir rest)

/-- Converts every definition file of a directory and tells which files were written. -/
def convertDirectory (dir outDir : String) : Action (Workspace ρ) DirectoryError (List String) := do
  let t := (← .state).files
  let paths ← .ofExcept (definitionPaths t dir)
  let files ← .ofExcept (paths.mapM (scan t))
  (DependencyOrder.warnings files).forM .note
  let ordered := DependencyOrder.arrange files
  .log .info .directory s!"converting {ordered.length} struct file(s) from {dir}"
  convertFiles outDir ordered

end Workspace

end RecordLayout
