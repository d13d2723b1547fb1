import RecordLayout.Code.Statement
import RecordLayout.FieldTable

/-!
# Record code

The source text for one definition: imports, the layout table as a comment, the structure with one
field for each member, its size, its default value, and the code that reads and writes it.
-/

namespace RecordLayout.Code

/-- Where generated code finds the scalar access and the trait of records. -/
def runtimeModule : String := "structgen::record"

/-- The type names that the runtime module provides. -/
def runtimeAliases : List String := ["UInt16", "UInt32", "UInt64"]

/-- Whether reading or writing a field needs the scalar access of the runtime module. -/
def needsScalarAccess (f : Field) : Bool :=
  match f.storage with
  | .record => false
  | .byte => !f.isArray
  | .scalar => true

/-- Adds a name to a strictly ascending list. -/
def insertName (name : String) : List String → List String
  | [] => [name]
  | n :: ns =>
    if name < n then name :: n :: ns else if name = n then n :: ns else n :: insertName name ns

/-- The names of a list in ascending order, each once. -/
def sortedNames (names : List String) : List String := names.foldr insertName []

/-- What is imported from the runtime module. -/
def runtimeImports (d : RecordDef) : List String :=
  (if d.fields.any needsScalarAccess then ["self"] else []) ++ ["BinaryRecord"] ++
    runtimeAliases.filter fun a => d.fields.any fun f => !f.isRecord && f.targetType == a

/-- The record types of the fields, the record itself left out. -/
def nestedTypes (d : RecordDef) : List String :=
  sortedNames ((d.fields.filter fun f => f.isRecord && f.targetType != d.name).map Field.targetType)

def importLine (d : RecordDef) : String :=
  match runtimeImports d with
  | [item] => s!"use {runtimeModule}::" ++ item ++ ";"
  | items => s!"use {runtimeModule}::\x7b" ++ String.intercalate ", " items ++ "\x7d;"

def preamble (path : String) (d : RecordDef) : List String :=
  [s!"// Generated by structgen from `{d.name}`. Do not edit."] ++
    (if path = "" then [] else [s!"// Namespace: {path}"]) ++
    ["", importLine d] ++
    (if path = "" then [] else (nestedTypes d).map fun t => s!"use {path}::{t};") ++
    [""]

/-- Puts a space between each `a` and a `b` that follows it. -/
def spaceBetween (a b : Char) : List Char → List Char
  | [] => []
  | c :: cs =>
    if c = a && cs.head? == some b then c :: ' ' :: spaceBetween a b cs
    else c :: spaceBetween a b cs

/-- A line inside a block comment, which it can neither open nor close. -/
def commentLine (line : String) : String :=
  trimmedEnd (" * " ++ String.ofList (spaceBetween '/' '*' (spaceBetween '*' '/' line.toList)))

def layoutComment (d : RecordDef) : List String :=
  "/*" :: (FieldTable.lines d.fields).map commentLine ++ [" */"]

/-- The type of a field with its array length. -/
def fieldType (f : Field) : String :=
  match f.count with
  | some n => s!"[{f.targetType}; {n}]"
  | none => f.targetType

def fieldLines (f : Field) : List String :=
  (if f.description = "" then [] else [indent 1 ("/// " ++ f.description)]) ++
    [indent 1 (s!"pub {f.codeName}: " ++ fieldType f ++ ",")]

def structLines (d : RecordDef) : List String :=
  ["#[allow(non_snake_case, non_camel_case_types)]",
   "#[derive(Debug, Clone, PartialEq, Eq)]",
   s!"pub struct {d.name} \x7b"] ++
    [""].intercalate (d.fields.map fieldLines) ++
    ["\x7d"]

def sizeLines (d : RecordDef) : List String :=
  [s!"impl {d.name} \x7b",
   indent 1 s!"pub const STRUCT_SIZE: usize = {d.size};",
   "\x7d"]

def defaultValue (f : Field) : String :=
  if f.isArray then "std::array::from_fn(|_| Default::default())" else "Default::default()"

def defaultLines (d : RecordDef) : List String :=
  [s!"impl Default for {d.name} \x7b",
   indent 1 "fn default() -> Self \x7b",
   indent 2 "Self \x7b"] ++
    d.fields.map (fun f => indent 3 (s!"{f.codeName}: " ++ defaultValue f ++ ",")) ++
    [indent 2 "\x7d", indent 1 "\x7d", "\x7d"]

def recordLines (d : RecordDef) : List String :=
  (if d.fields.isEmpty then ["#[allow(unused_variables)]"] else []) ++
    [s!"impl BinaryRecord for {d.name} \x7b",
     indent 1 "fn read_from(&mut self, buffer: &[u8], offset: usize) -> usize \x7b"] ++
    d.fields.flatMap (fun f => f.readStatement.lines) ++
    [indent 2 "Self::STRUCT_SIZE", indent 1 "\x7d", "",
     indent 1 "fn write_to(&self, buffer: &mut [u8], offset: usize) \x7b"] ++
    d.fields.flatMap (fun f => f.writeStatement.lines) ++
    [indent 1 "\x7d", "",
     indent 1 "fn size(&self) -> usize \x7b", indent 2 "Self::STRUCT_SIZE", indent 1 "\x7d", "\x7d"]

/-- All lines for a definition whose record types are imported from `path`. -/
def lines (path : String) (d : RecordDef) : List String :=
  preamble path d ++ layoutComment d ++ structLines d ++ [""] ++ sizeLines d ++ [""] ++
    defaultLines d ++ [""] ++ recordLines d

def render (path : String) (d : RecordDef) : String := String.join ((lines path d).map (· ++ "\n"))

/-- Whether all sizes and positions in the record code of a definition are within `maxSize`: the size of the
record, and the end of each array of bytes, which the code writes out. -/
def fits (d : RecordDef) : Bool :=
  d.size ≤ maxSize && d.fields.all fun f => !(f.storage == .byte && f.isArray) || f.stop ≤ maxSize

/-- Record code for a definition that may be too large for it. -/
def render? (path : String) (d : RecordDef) : Option String :=
  if fits d then some (render path d) else none

end RecordLayout.Code
