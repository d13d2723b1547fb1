/-!
# Fields and record definitions

A field is placed at a byte offset from the start of its record. Sizes and offsets are exact natural
numbers; those of a definition that was read stay within `maxSize`.
-/

namespace RecordLayout

/-- The largest size and offset of a definition that is read. -/
def maxSize : Nat := UInt64.size - 1

structure Field where
  offset : Nat
  elementSize : Nat
  /-- The number of elements of an array; `none` for a plain field. -/
  count : Option Nat
  typeName : String
  /-- The type in record code. -/
  targetType : String
  identifier : String
  description : String
  /-- The type is a record with its own code. -/
  isRecord : Bool
  /-- The size was given with the remark that the type is named by a class. -/
  isClassName : Bool
  deriving DecidableEq, Repr

namespace Field

def isArray (f : Field) : Bool := f.count.isSome

/-- The bytes of all elements. -/
def size (f : Field) : Nat := f.elementSize * f.count.getD 1

/-- The offset behind the last byte. -/
def stop (f : Field) : Nat := f.offset + f.size

/-- The bytes of fields one behind the other. -/
def totalSize (fields : List Field) : Nat := fields.foldr (fun f n => f.size + n) 0

/-- The size as the layout table shows it. -/
def sizeCell (f : Field) : String :=
  match f.count with
  | some n => s!"{f.elementSize}*{n}"
  | none => toString f.elementSize

/-- The type as the layout table shows it. -/
def typeCell (f : Field) : String :=
  match f.count with
  | some n => s!"{f.targetType}[{n}]"
  | none => f.targetType

@[simp] theorem totalSize_nil : totalSize [] = 0 := rfl

@[simp] theorem totalSize_cons (f : Field) (fields : List Field) :
    totalSize (f :: fields) = f.size + totalSize fields := rfl

@[simp] theorem totalSize_append (fields fields' : List Field) :
    totalSize (fields ++ fields') = totalSize fields + totalSize fields' := by
  induction fields with
  | nil => rw [List.nil_append, totalSize_nil, Nat.zero_add]
  | cons f fields ih => rw [List.cons_append, totalSize_cons, totalSize_cons, ih, Nat.add_assoc]

end Field

structure RecordDef where
  name : String
  fields : List Field
  deriving DecidableEq, Repr

namespace RecordDef

def size (d : RecordDef) : Nat := Field.totalSize d.fields

/-- The first field of a given name. -/
def field? (d : RecordDef) (identifier : String) : Option Field :=
  d.fields.find? fun f => f.identifier == identifier

end RecordDef

end RecordLayout
