import RecordLayout.CommandLine.Options
import RecordLayout.Directory.Run
import RecordLayout.SizeCatalog.Json
import RecordLayout.SizeSource.Responder
import RecordLayout.Stream.ControlSequence

/-!
# The command

Converts one definition, or all of a directory, between files and the standard streams. Everything that
a run does is a function of its arguments, its input and the file tree.
-/

namespace RecordLayout.CommandLine

/-- The texts that are up to the program around the command. -/
structure Wording where
  help : String
  /-- What is wrong with a command line. -/
  usage : UsageError → String
  /-- What is wrong with a text that is no catalog. -/
  json : String → String

/-- Why a catalog could not be loaded or saved. -/
inductive CatalogError where
  | io (fault : IoFault)
  | json (text : String)
  deriving DecidableEq, Repr

namespace CatalogError

/-- The message, followed by those of its causes. -/
def chain (wording : Wording) : CatalogError → List String
  | .io fault => ["IO: " ++ fault.message, fault.message]
  | .json text => ["JSON: " ++ wording.json text, wording.json text]

end CatalogError

def loadCatalog (t : FileTree) (path : String) : Except CatalogError SizeCatalog := do
  let text ← (t.readText path).mapError CatalogError.io
  match SizeCatalog.ofJson? text with
  | some c => .ok c
  | none => .error (.json text)

def saveCatalog (t : FileTree) (path : String) (c : SizeCatalog) : Except CatalogError FileTree :=
  (t.write path (Bytes.ofString (c.toJson ++ "\n"))).mapError CatalogError.io

/-- Why a run failed. -/
inductive Failure where
  | loadingCatalog (path : String) (error : CatalogError)
  | opening (path : String) (fault : IoFault)
  | converting (path : String) (error : DefinitionError)
  | reading (error : DefinitionError)
  | writing (path : String) (fault : IoFault)
  | directory (error : DirectoryError)
  | savingCatalog (path : String) (error : CatalogError)
  deriving DecidableEq, Repr

/-- A message, followed by those of its causes. -/
def definitionChain (e : DefinitionError) : List String :=
  e.message ::
    match e with
    | .io fault => [fault.message]
    | _ => []

namespace Failure

def chain (wording : Wording) : Failure → List String
  | .loadingCatalog path error => s!"loading catalog {path}" :: error.chain wording
  | .opening path fault => [s!"opening {path}", fault.message]
  | .converting path error => s!"converting {path}" :: definitionChain error
  | .reading error => definitionChain error
  | .writing path fault => [s!"writing {path}", fault.message]
  | .directory error =>
    error.message ::
      match error with
      | .io _ fault => [fault.message]
      | .definition _ error => definitionChain error
  | .savingCatalog path error => s!"saving catalog {path}" :: error.chain wording

/-- The run stopped at input that is still to come. -/
def awaitsInput : Failure → Bool
  | .converting _ (.io .inputPending) => true
  | .reading (.io .inputPending) => true
  | .directory (.definition _ (.io .inputPending)) => true
  | _ => false

end Failure

/-- A text whose lines behind the first are indented. -/
def hang (depth : Nat) (text : String) : String :=
  String.join (text.toList.map fun c =>
    if c = '\n' then "\n" ++ String.ofList (List.replicate depth ' ') else String.singleton c)

/-- The report of a failure: what failed, and its causes, numbered if there are several. -/
def report (chain : List String) : String :=
  match chain with
  | [] => ""
  | [top] => s!"Error: {top}\n"
  | [top, cause] => s!"Error: {top}\n\nCaused by:\n    " ++ hang 4 cause ++ "\n"
  | top :: causes =>
    s!"Error: {top}\n\nCaused by:\n" ++
      String.join (causes.zipIdx.map fun (cause, i) => s!"    {i}: " ++ hang 7 cause ++ "\n")

/-- The threshold that a word names; another word means warnings. -/
def threshold (word : String) : Option Level :=
  match String.ofList (word.toList.map Char.toLower) with
  | "trace" => some .trace
  | "debug" => some .debug
  | "info" => some .info
  | "error" => some .error
  | "off" => none
  | _ => some .warn

/-- A log line on the error stream. -/
def logText (l : LogLine) : String :=
  let level := l.level.name ++ String.ofList (List.replicate (5 - l.level.name.length) ' ')
  s!"[{level} {l.component.name}] " ++ hang 4 l.message ++ "\n"

/-- What the error stream shows of events. Log lines are shown without control sequences, and each by
itself: one that it leaves open does not reach the next line. -/
def errorText (level : Option Level) (events : List Event) : Bytes :=
  events.flatMap fun e =>
    match e with
    | .log _ => (logLines level [e]).flatMap fun l => (Bytes.ofString (logText l)).plain
    | .asked _ => []
    | .shown text => text

/-- The surroundings of a run. -/
structure World where
  files : FileTree
  stdin : Source
  stdout : Bytes
  deriving DecidableEq, Repr

namespace Options

/-- A path that stands for a standard stream. -/
def isStandard (path : Option String) : Bool :=
  match path with
  | none => true
  | some p => Path.parts p == Path.parts "-"

/-- The file that a path names, unless it stands for a standard stream. -/
def file? (path : Option String) : Option String := if isStandard path then none else path

/-- Unknown types can be asked for at the terminal. -/
def isInteractive (o : Options) : Bool :=
  !o.nonInteractive && (o.dir.isSome || (file? o.input).isSome)

/-- Who is asked for sizes. -/
def responder (o : Options) (stdin : Source) : Responder :=
  .table o.sizes []
    (if o.isInteractive then .prompt { input := stdin, output := Sink.ofLimit .never } else .silent)

end Options

def startCatalog (o : Options) (t : FileTree) : Except Failure SizeCatalog :=
  match o.catalog with
  | none => .ok .empty
  | some path =>
    if t.exists? path then (loadCatalog t path).mapError (Failure.loadingCatalog path)
    else .ok .empty

/-- The state of a run that has started. -/
structure RunState where
  world : World
  conversion : Conversion Responder

namespace RunState

def onConversion {ε α : Type} (a : Action (Conversion Responder) ε α) : Action RunState ε α :=
  Action.within conversion (fun s c => { s with conversion := c }) a

/-- Converts a directory. -/
def convertDirectory (dir outDir : String) : Action RunState Failure Unit := do
  let written ← Action.within
    (fun s => (⟨s.conversion, s.world.files⟩ : Workspace Responder))
    (fun s w => ⟨{ s.world with files := w.files }, w.conversion⟩)
    (Action.mapError Failure.directory (Workspace.convertDirectory dir outDir))
  .note (.shown (Bytes.ofString s!"structgen: wrote {written.length} file(s)\n"))

def readDefinition (input : Option String) : Action RunState Failure RecordDef := do
  let world := (← .state).world
  match Options.file? input with
  | some path =>
    let source ← .ofExcept ((world.files.openFile path).mapError (Failure.opening path))
    onConversion (Action.mapError (Failure.converting path) (Conversion.readFrom source))
  | none => onConversion (Action.mapError Failure.reading (Conversion.readFrom world.stdin))

def writeCode (output : Option String) (code : Bytes) : Action RunState Failure Unit := do
  match Options.file? output with
  | some path =>
    let files ← .ofExcept (((← .state).world.files.write path code).mapError (Failure.writing path))
    .update fun s => { s with world := { s.world with files } }
  | none => .update fun s => { s with world := { s.world with stdout := s.world.stdout ++ code } }

/-- Converts one definition. -/
def convertOne (input output : Option String) : Action RunState Failure Unit := do
  let d ← readDefinition input
  let code := (← .state).conversion.render d
  writeCode output (Bytes.ofString code)

def saveCatalog (path : Option String) : Action RunState Failure Unit := do
  match path with
  | none => return
  | some path =>
    let s ← .state
    let files ← .ofExcept ((CommandLine.saveCatalog s.world.files path s.conversion.catalog).mapError
      (Failure.savingCatalog path))
    .update fun s => { s with world := { s.world with files } }

def run (o : Options) : Action RunState Failure Unit := do
  match o.dir with
  | some dir => convertDirectory dir o.outDir
  | none => convertOne o.input o.output
  saveCatalog o.catalog

end RunState

/-- A run with given options. -/
def runOptions (o : Options) : Action World Failure Unit := do
  if !o.isInteractive && !o.nonInteractive then
    .log .warn .commandLine "struct read from stdin: unknown types will not be prompted for"
  let world ← .state
  let catalog ← .ofExcept (startCatalog o world.files)
  let conversion := Conversion.start o.modulePath catalog (o.responder world.stdin)
  fun world =>
    let out := (RunState.run o).run ⟨world, conversion⟩
    ⟨out.result, out.state.world, out.events⟩

/-- What a run leaves. -/
structure Result where
  code : Nat
  stdout : Bytes
  stderr : Bytes
  files : FileTree
  /-- There is no end yet: the run goes on once there is more input. -/
  awaitsInput : Bool := false

def versionText : String := "structgen 0.1.0\n"

/-- What the error stream shows of a command line that is wrong. A control sequence that the value of a size
left open goes on up to the next highlighted piece. -/
def usageText (wording : Wording) : UsageError → Bytes
  | .refusedSize value fault =>
    (Bytes.ofString
      (fault.refusal value ++ "\n\nFor more information, try '" ++ highlighted "--help" ++ "'.\n")).plain
  | error => Bytes.ofString (wording.usage error)

/-- The answer to a command line that is not run. -/
def halted (wording : Wording) (w : World) : Halt → Result
  | .version => { code := 0, stdout := Bytes.ofString versionText, stderr := [], files := w.files }
  | .help => { code := 0, stdout := Bytes.ofString wording.help, stderr := [], files := w.files }
  | .usage error => { code := 2, stdout := [], stderr := usageText wording error, files := w.files }

def run (wording : Wording) (arguments : List String) (w : World) : Result :=
  match parse arguments with
  | .error halt => halted wording w halt
  | .ok o =>
    let out := (runOptions o).run w
    let shown := errorText (threshold o.logLevel) out.events
    match out.result with
    | .ok _ =>
      { code := 0, stdout := out.state.stdout, stderr := shown, files := out.state.files }
    | .error failure =>
      let awaitsInput := failure.awaitsInput
      { code := 1
        stdout := out.state.stdout
        stderr := if awaitsInput then shown else shown ++ Bytes.ofString (report (failure.chain wording))
        files := out.state.files
        awaitsInput }

end RecordLayout.CommandLine
