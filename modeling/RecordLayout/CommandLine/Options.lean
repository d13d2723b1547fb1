import RecordLayout.Path
import RecordLayout.Text.Blank
import RecordLayout.Text.Integer

/-!
# Command line options

Arguments are taken from left to right, and the first one that is wrong decides. A value that follows
its option as an argument of its own is looked at only when the next option or operand has been
recognised, or at the end.
-/

namespace RecordLayout.CommandLine

inductive OptionName where
  | dir
  | outDir
  | modulePath
  | size
  | catalog
  | nonInteractive
  | logLevel
  | help
  | version
  deriving DecidableEq, Repr

namespace OptionName

def ofLong? (text : String) : Option OptionName :=
  match text with
  | "dir" => some .dir
  | "out-dir" => some .outDir
  | "namespace" => some .modulePath
  | "size" => some .size
  | "catalog" => some .catalog
  | "non-interactive" => some .nonInteractive
  | "log-level" => some .logLevel
  | "help" => some .help
  | "version" => some .version
  | _ => none

def ofShort? (c : Char) : Option OptionName :=
  match c with
  | 'n' => some .modulePath
  | 'l' => some .logLevel
  | 'h' => some .help
  | 'V' => some .version
  | _ => none

def takesValue : OptionName → Bool
  | .nonInteractive | .help | .version => false
  | _ => true

def long : OptionName → String
  | .dir => "--dir"
  | .outDir => "--out-dir"
  | .modulePath => "--namespace"
  | .size => "--size"
  | .catalog => "--catalog"
  | .nonInteractive => "--non-interactive"
  | .logLevel => "--log-level"
  | .help => "--help"
  | .version => "--version"

end OptionName

/-- What a value is for. -/
inductive Slot where
  | option (name : OptionName)
  | input
  | output
  deriving DecidableEq, Repr

/-- Why a size given on the command line is refused. -/
inductive SizeFault where
  | noEquals
  | integer (fault : Text.IntegerFault)
  | zero (name : String)
  deriving DecidableEq, Repr

def SizeFault.message (value : String) : SizeFault → String
  | .noEquals => s!"expected TYPE=N, got `{value}`"
  | .integer fault => s!"invalid size in `{value}`: " ++ fault.message
  | .zero name => s!"size for `{name}` must not be zero"

/-- Reads `TYPE=N`. Blanks around the two parts do not count. -/
def readSize (value : String) : Except SizeFault (String × Int) :=
  let cs := value.toList
  let name := cs.takeWhile (· != '=')
  match cs.dropWhile (· != '=') with
  | [] => .error .noEquals
  | _ :: digits =>
    match Text.readInteger (Text.trim digits) with
    | .error fault => .error (.integer fault)
    | .ok n =>
      if n = 0 then .error (.zero (String.ofList name))
      else .ok (String.ofList (Text.trim name), n)

inductive UsageError where
  | unknownArgument (text : String)
  | missingValue (option : OptionName)
  | unexpectedValue (option : OptionName)
  | repeated (option : OptionName)
  | emptyPath
  | refusedSize (value : String) (fault : SizeFault)
  | conflict
  deriving DecidableEq, Repr

/-- A piece of a message that a terminal shows in bold. The style at its end also ends a control sequence
that the piece left open. -/
def highlighted (text : String) : String := "\x1b[1m" ++ text ++ "\x1b[0m"

/-- The message for a size that is refused. -/
def SizeFault.refusal (value : String) (fault : SizeFault) : String :=
  "error: invalid value '" ++ highlighted value ++ "' for '" ++ highlighted "--size <TYPE=N>" ++ "': " ++
    fault.message value

/-- Why taking arguments ends early. -/
inductive Halt where
  | usage (error : UsageError)
  | help
  | version
  deriving DecidableEq, Repr

/-- The values given so far. -/
structure Given where
  input : Option String := none
  output : Option String := none
  dir : Option String := none
  outDir : Option String := none
  modulePath : Option String := none
  catalog : Option String := none
  logLevel : Option String := none
  sizes : List (String × Int) := []
  nonInteractive : Bool := false
  deriving DecidableEq, Repr

/-- The options of a run. -/
structure Options where
  input : Option String
  output : Option String
  dir : Option String
  outDir : String
  modulePath : String
  sizes : List (String × Int)
  catalog : Option String
  nonInteractive : Bool
  logLevel : String
  deriving DecidableEq, Repr

namespace Given

/-- A value for an option that may stand once. -/
def once (name : OptionName) (old : Option String) (value : String) : Except UsageError (Option String) :=
  if old.isSome then .error (.repeated name) else .ok (some value)

/-- A path for an option that may stand once. -/
def oncePath (name : OptionName) (old : Option String) (value : String) :
    Except UsageError (Option String) :=
  if old.isSome then .error (.repeated name)
  else if value = "" then .error .emptyPath
  else .ok (some value)

def operand (value : String) : Except UsageError (Option String) :=
  if value = "" then .error .emptyPath else .ok (some value)

/-- Takes the value of a slot. -/
def assign (g : Given) (slot : Slot) (value : String) : Except UsageError Given := do
  match slot with
  | .input => return { g with input := ← operand value }
  | .output => return { g with output := ← operand value }
  | .option .dir => return { g with dir := ← oncePath .dir g.dir value }
  | .option .outDir => return { g with outDir := ← oncePath .outDir g.outDir value }
  | .option .catalog => return { g with catalog := ← oncePath .catalog g.catalog value }
  | .option .modulePath => return { g with modulePath := ← once .modulePath g.modulePath value }
  | .option .logLevel => return { g with logLevel := ← once .logLevel g.logLevel value }
  | .option .size =>
    match readSize value with
    | .ok size => return { g with sizes := g.sizes ++ [size] }
    | .error fault => .error (.refusedSize value fault)
  | .option name => .error (.unexpectedValue name)

/-- The options of a run, with what is not given filled in. -/
def options (g : Given) : Except UsageError Options :=
  if g.dir.isSome && (g.input.isSome || g.output.isSome) then .error .conflict
  else .ok {
    input := g.input
    output := g.output
    dir := g.dir
    outDir := g.outDir.getD "."
    modulePath := g.modulePath.getD ""
    sizes := g.sizes
    catalog := g.catalog
    nonInteractive := g.nonInteractive
    logLevel := g.logLevel.getD "warn" }

end Given

/-- Arguments taken so far. -/
structure Taken where
  given : Given := {}
  /-- A slot that waits for its value, or has one that was not looked at yet. -/
  pending : Option (Slot × Option String) := none
  /-- The operands seen. -/
  operands : Nat := 0
  /-- `--` was seen. -/
  onlyOperands : Bool := false
  deriving DecidableEq, Repr

namespace Taken

/-- Looks at the pending value. -/
def settle (t : Taken) : Except Halt Taken :=
  match t.pending with
  | none => .ok t
  | some (slot, some value) => do
    let given ← (t.given.assign slot value).mapError Halt.usage
    return { t with given, pending := none }
  | some (.option name, none) => .error (.usage (.missingValue name))
  | some (_, none) => .ok { t with pending := none }

def takeValue (t : Taken) (slot : Slot) (value : String) : Except Halt Taken := do
  let t ← t.settle
  let given ← (t.given.assign slot value).mapError Halt.usage
  return { t with given }

def awaitValue (t : Taken) (name : OptionName) : Except Halt Taken := do
  return { ← t.settle with pending := some (.option name, none) }

/-- An option without a value. -/
def takeFlag (t : Taken) (name : OptionName) : Except Halt Taken := do
  let t ← t.settle
  match name with
  | .help => .error .help
  | .version => .error .version
  | _ =>
    if t.given.nonInteractive then .error (.usage (.repeated name))
    else return { t with given := { t.given with nonInteractive := true } }

/-- An argument `--name` or `--name=value`, given without its two dashes. -/
def takeLong (t : Taken) (body : List Char) : Except Halt Taken :=
  let name := String.ofList (body.takeWhile (· != '='))
  match OptionName.ofLong? name, body.dropWhile (· != '=') with
  | none, _ => .error (.usage (.unknownArgument ("--" ++ name)))
  | some o, [] => if o.takesValue then t.awaitValue o else t.takeFlag o
  | some o, _ :: value =>
    if o.takesValue then t.takeValue (.option o) (String.ofList value)
    else .error (.usage (.unexpectedValue o))

/-- An argument of options with one letter, given without its dash. The letters behind an option with a
value are the value; an equals sign in front of it does not count. -/
def takeShort (t : Taken) : List Char → Except Halt Taken
  | [] => .ok t
  | c :: rest =>
    match OptionName.ofShort? c with
    | none => .error (.usage (.unknownArgument (String.ofList ['-', c])))
    | some o =>
      if o.takesValue then
        match rest with
        | [] => t.awaitValue o
        | '=' :: value => t.takeValue (.option o) (String.ofList value)
        | value => t.takeValue (.option o) (String.ofList value)
      else do takeShort (← t.takeFlag o) rest

def takeOperand (t : Taken) (text : String) : Except Halt Taken :=
  match t.operands with
  | 0 => do return { ← t.settle with pending := some (.input, some text), operands := 1 }
  | 1 => do return { ← t.settle with pending := some (.output, some text), operands := 2 }
  | _ => .error (.usage (.unknownArgument text))

def take (t : Taken) (argument : String) : Except Halt Taken :=
  if t.onlyOperands then t.takeOperand argument
  else
    match argument.toList with
    | ['-', '-'] => .ok { t with onlyOperands := true }
    | '-' :: '-' :: body => t.takeLong body
    | '-' :: c :: rest => t.takeShort (c :: rest)
    | _ =>
      match t.pending with
      | some (slot, none) => .ok { t with pending := some (slot, some argument) }
      | _ => t.takeOperand argument

end Taken

def parse (arguments : List String) : Except Halt Options := do
  let t ← arguments.foldlM Taken.take {}
  let t ← t.settle
  t.given.options.mapError Halt.usage

end RecordLayout.CommandLine
