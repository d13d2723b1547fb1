import RecordLayout.Stream.Bytes

/-!
# Events

What a run leaves besides its result: log lines, questions about the size of a type, and text shown to
the person at the terminal, in the order in which they happen.
-/

namespace RecordLayout

inductive Level where
  | error
  | warn
  | info
  | debug
  | trace
  deriving DecidableEq, Repr

namespace Level

def name : Level → String
  | .error => "ERROR"
  | .warn => "WARN"
  | .info => "INFO"
  | .debug => "DEBUG"
  | .trace => "TRACE"

/-- Higher is more talkative. -/
def rank : Level → Nat
  | .error => 1
  | .warn => 2
  | .info => 3
  | .debug => 4
  | .trace => 5

end Level

/-- The part of the program that speaks in a log line. -/
inductive Component where
  | commandLine
  | conversion
  | definition
  | catalog
  | sizeSource
  | directory
  deriving DecidableEq, Repr

def Component.name : Component → String
  | .commandLine => "structgen"
  | .conversion => "structgen::session"
  | .definition => "structgen::parser"
  | .catalog => "structgen::catalog"
  | .sizeSource => "structgen::resolver"
  | .directory => "structgen::batch"

structure LogLine where
  level : Level
  component : Component
  message : String
  deriving DecidableEq, Repr

inductive Event where
  | log (line : LogLine)
  /-- The size of a type was asked for. -/
  | asked (typeName : String)
  /-- Text reached the terminal. -/
  | shown (text : Bytes)
  deriving DecidableEq, Repr

namespace Event

def log? : Event → Option LogLine
  | .log line => some line
  | _ => none

def asked? : Event → Option String
  | .asked typeName => some typeName
  | _ => none

def shown? : Event → Option Bytes
  | .shown text => some text
  | _ => none

end Event

/-- The log lines that a threshold lets through; `none` lets nothing through. -/
def logLines (threshold : Option Level) (events : List Event) : List LogLine :=
  match threshold with
  | none => []
  | some level => (events.filterMap Event.log?).filter fun l => l.level.rank ≤ level.rank

/-- The types that were asked for. -/
def askedTypes (events : List Event) : List String := events.filterMap Event.asked?

@[simp] theorem askedTypes_nil : askedTypes [] = [] := rfl

@[simp] theorem askedTypes_append (es es' : List Event) :
    askedTypes (es ++ es') = askedTypes es ++ askedTypes es' := List.filterMap_append

@[simp] theorem askedTypes_log (line : LogLine) (es : List Event) :
    askedTypes (.log line :: es) = askedTypes es := rfl

@[simp] theorem askedTypes_asked (typeName : String) (es : List Event) :
    askedTypes (.asked typeName :: es) = typeName :: askedTypes es := rfl

@[simp] theorem askedTypes_shown (text : Bytes) (es : List Event) :
    askedTypes (.shown text :: es) = askedTypes es := rfl

/-- Everything that reached the terminal. -/
def shownText (events : List Event) : Bytes := (events.filterMap Event.shown?).flatten

end RecordLayout
