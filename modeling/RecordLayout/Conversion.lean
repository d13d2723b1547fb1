import RecordLayout.Code.Unit
import RecordLayout.Definition.Declarator
import RecordLayout.Definition.Line
import RecordLayout.Field
import RecordLayout.Primitive
import RecordLayout.SizeCatalog.Basic
import RecordLayout.SizeSource.Basic
import RecordLayout.Stream.Sink
import RecordLayout.Stream.Source

/-!
# Conversions

A conversion turns one definition after the other into record code. It keeps the sizes that it was given and the size of
every record that it has read, so that a later definition can use the record as a type.
-/

namespace RecordLayout

structure Conversion (ρ : Type) where
  /-- The module that record types are imported from; empty if they need no import. -/
  modulePath : String
  catalog : SizeCatalog
  sizes : ρ

namespace Conversion

variable {ρ : Type}

/-- A module path as record code writes it: without blanks around it, and `::` for each point. -/
def normalPath (path : String) : String :=
  String.join ((trimmed path).toList.map fun c => if c = '.' then "::" else String.singleton c)

def start (modulePath : String) (catalog : SizeCatalog) (sizes : ρ) : Conversion ρ :=
  ⟨normalPath modulePath, catalog, sizes⟩

/-- Record code for a definition, under the module path of the conversion. -/
def render (c : Conversion ρ) (d : RecordDef) : String := Code.render c.modulePath d

def record {ε : Type} (name : String) (size : Nat) : Action (Conversion ρ) ε Bool :=
  Action.within catalog (fun c cat => { c with catalog := cat }) (SizeCatalog.record name size)

/-- The size of a type and where it comes from. -/
structure Sizing where
  size : Nat
  isRecord : Bool
  isClassName : Bool
  deriving DecidableEq, Repr

variable [SizeSource ρ]

/-- Asks the size source; a failure of it is one of the definition. -/
def ask (typeName : String) : Action (Conversion ρ) DefinitionError (Option Answer) := do
  .note (.asked typeName)
  Action.within sizes (fun c s => { c with sizes := s })
    (Action.mapError DefinitionError.io (SizeSource.ask typeName))

/-- Built-in types first, then the catalog, then the size source, whose answer is recorded. -/
def sizing (typeName : String) (line : Nat) : Action (Conversion ρ) DefinitionError Sizing := do
  match primitiveSize? typeName with
  | some size => return ⟨size, false, false⟩
  | none =>
    match (← .state).catalog.size? typeName with
    | some size => return ⟨size, true, false⟩
    | none =>
      .log .info .definition s!"line {line}: could not determine size for `{typeName}`"
      match ← ask typeName with
      | none => .fail (.unresolvableType typeName line)
      | some answer =>
        let _ ← record typeName answer.size
        return ⟨answer.size, true, answer.isClassName⟩

/-- Reads a member line as the field at `offset`. -/
def readField (text : String) (line offset : Nat) :
    Action (Conversion ρ) DefinitionError Field := do
  match MemberLine.ofString? (trimmed text) with
  | none => .fail (.malformedMember line text)
  | some parts =>
    let sizing ← sizing parts.typeName line
    let declarator ← Declarator.read parts.declarator line
    if maxSize < sizing.size * declarator.count.getD 0 then
      .fail (.invalidArraySize parts.declarator line)
    else
      let field : Field := {
        offset
        elementSize := sizing.size
        count := declarator.count
        typeName := parts.typeName
        targetType := targetType parts.typeName
        identifier := declarator.identifier
        description := parts.description
        isRecord := sizing.isRecord
        isClassName := sizing.isClassName }
      let message := s!"member `{field.identifier}`: {field.typeCell} at offset {field.offset} ({field.size} byte(s))"
      .log .debug .definition message
      return field

/-- A line with its number, or why it could not be read. -/
structure NumberedLine where
  number : Nat
  text : Except IoFault String

/-- The state of reading one definition. -/
structure Reading (ρ : Type) where
  conversion : Conversion ρ
  /-- The lines used up so far. -/
  linesRead : Nat

def onConversion {α : Type} (a : Action (Conversion ρ) DefinitionError α) :
    Action (Reading ρ) DefinitionError α :=
  Action.within Reading.conversion (fun r c => { r with conversion := c }) a

/-- Takes the next line. -/
def takeLine (line : NumberedLine) : Action (Reading ρ) DefinitionError String := do
  .update fun r => { r with linesRead := r.linesRead + 1 }
  .ofExcept (line.text.mapError DefinitionError.io)

/-- Reads fields behind those already read, up to the terminator or the end. A blank line ends the list
if no field has been read, and means nothing later. -/
def readFields (fields : List Field) (offset : Nat) :
    List NumberedLine → Action (Reading ρ) DefinitionError (List Field)
  | [] => return fields
  | line :: rest => do
    let text := trimmed (← takeLine line)
    if text = terminator then return fields
    else if text = "" then
      if fields.isEmpty then return fields else readFields fields offset rest
    else
      let field ← onConversion (readField text line.number offset)
      if maxSize < field.stop then .fail (.invalidArraySize field.identifier line.number)
      else readFields (fields ++ [field]) field.stop rest

/-- The lines of a source, counted from one. -/
def numberedLines (source : Source) : List NumberedLine :=
  source.lines.zipIdx.map fun (text, i) => ⟨i + 1, text⟩

/-- Reads a definition from its lines and records the size of the record. -/
def readLines : List NumberedLine → Action (Reading ρ) DefinitionError RecordDef
  | [] => .fail (.malformedHeader 1 "")
  | header :: rest => do
    let name ← .ofExcept (readHeader (← takeLine header) header.number)
    .log .info .conversion s!"converting struct `{name}`"
    let fields ← readFields [] 0 rest
    let d : RecordDef := ⟨name, fields⟩
    let _ ← onConversion (record d.name d.size)
    .log .info .conversion s!"struct `{d.name}`: {d.fields.length} member(s), {d.size} byte(s)"
    return d

/-- Reads one definition and leaves what follows it in the source. -/
def readRecord : Action (Conversion ρ × Source) DefinitionError RecordDef := fun (c, source) =>
  let o := (readLines (numberedLines source)).run ⟨c, 0⟩
  ⟨o.result, (o.state.conversion, source.drop o.state.linesRead), o.events⟩

/-- Reads one definition from a source that is not used any further. -/
def readFrom (source : Source) : Action (Conversion ρ) DefinitionError RecordDef := fun c =>
  let o := readRecord.run (c, source)
  ⟨o.result, o.state.1, o.events⟩

/-- Reads the definition in a text and gives its record code. -/
def convertText (text : String) : Action (Conversion ρ) DefinitionError String := do
  let d ← readFrom (Source.ofString text)
  return (← .state).render d

/-- A conversion between a source and a sink. -/
structure Transfer (ρ : Type) where
  conversion : Conversion ρ
  source : Source
  sink : Sink

/-- Reads one definition from the source and writes its record code to the sink. Nothing is written
unless the definition was read to its end. -/
def convert : Action (Transfer ρ) DefinitionError RecordDef := do
  let d ← Action.within (fun t => (t.conversion, t.source))
    (fun t (c, source) => { t with conversion := c, source := source }) readRecord
  let text := Bytes.ofString ((← .state).conversion.render d)
  Action.within Transfer.sink (fun t sink => { t with sink := sink })
    (Action.mapError DefinitionError.io (do Sink.write text; Sink.flush))
  return d

end Conversion

end RecordLayout
