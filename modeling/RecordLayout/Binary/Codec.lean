import RecordLayout.Binary.Scalar
import RecordLayout.Code.Statement

/-!
# What record code does

The meaning of the statements of record code over a byte buffer. A statement that would reach behind
the buffer stops the run; what was read or written before stays.
-/

namespace RecordLayout

/-- How values of one kind are read and written. -/
structure Codec (α : Type) where
  size : Nat
  initial : α
  /-- Reads at an offset over an earlier value. -/
  read : Bytes → Nat → α → Attempt α
  /-- Writes a value at an offset. -/
  write : α → Bytes → Nat → Attempt Bytes

namespace Codec

variable {α : Type}

/-- The value at an offset, read over the initial one. -/
def decode (c : Codec α) (buffer : Bytes) (offset : Nat) : Attempt α := c.read buffer offset c.initial

/-- Reads over an earlier value, and counts the bytes that a reading to its end takes. -/
def consume (c : Codec α) (buffer : Bytes) (offset : Nat) (v : α) : Except α (α × Nat) :=
  match c.read buffer offset v with
  | .ok v' => .ok (v', c.size)
  | .error v' => .error v'

/-- The bytes of a value by itself. -/
def encode (c : Codec α) (v : α) : Attempt Bytes := c.write v (List.replicate c.size 0) 0

/-- Reads one value after the other, `stride` bytes apart. -/
def readEach (c : Codec α) (buffer : Bytes) (stride : Nat) : Nat → List α → Attempt (List α)
  | _, [] => .ok []
  | pos, v :: vs =>
    match c.read buffer pos v with
    | .error v' => .error (v' :: vs)
    | .ok v' => (readEach c buffer stride (pos + stride) vs).map (v' :: ·)

/-- Writes one value after the other, `stride` bytes apart. -/
def writeEach (c : Codec α) (stride : Nat) : Nat → List α → Bytes → Attempt Bytes
  | _, [], buffer => .ok buffer
  | pos, v :: vs, buffer =>
    match c.write v buffer pos with
    | .error b => .error b
    | .ok b => writeEach c stride (pos + stride) vs b

end Codec

/-- One element of a field. -/
inductive Element (ρ : Type) where
  | number (n : Int)
  | record (r : ρ)
  deriving DecidableEq, Repr

/-- The value of a field: one element, or those of an array. -/
inductive FieldValue (ρ : Type) where
  | one (e : Element ρ)
  | many (es : List (Element ρ))
  deriving DecidableEq, Repr

/-- The values of the fields of a record, in their order. -/
abbrev RecordValue (ρ : Type) := List (FieldValue ρ)

variable {ρ : Type}

def Scalar.codec (t : Scalar) : Codec (Element ρ) where
  size := t.width
  initial := .number 0
  read buffer offset e :=
    match t.read? buffer offset with
    | some n => .ok (.number n)
    | none => .error e
  write e buffer offset :=
    match e with
    | .number n => t.write n buffer offset
    | .record _ => .error buffer

/-- A record as an element of another one. -/
def Codec.nested (c : Codec ρ) : Codec (Element ρ) where
  size := c.size
  initial := .record c.initial
  read buffer offset e :=
    match e with
    | .record r => (c.read buffer offset r).map .record
    | .number n => .error (.number n)
  write e buffer offset :=
    match e with
    | .record r => c.write r buffer offset
    | .number _ => .error buffer

namespace Code

/-- Bytes as the elements of an array. -/
def byteElements (b : Bytes) : List (Element ρ) := b.map fun x => .number x.toNat

/-- The byte of an element. -/
def elementByte : Element ρ → UInt8
  | .number n => UInt8.ofNat (n % 256).toNat
  | .record _ => 0

/-- Runs a statement that reads into a field whose elements have the codec `c`. -/
def ReadStatement.run (c : Codec (Element ρ)) (buffer : Bytes) (offset : Nat)
    (s : ReadStatement) (v : FieldValue ρ) : Attempt (FieldValue ρ) :=
  match s, v with
  | .record _ pos, .one e => (c.read buffer (offset + pos) e).map .one
  | .scalar _ pos, .one e => (c.read buffer (offset + pos) e).map .one
  | .byte _ pos, .one e =>
    match buffer[offset + pos]? with
    | some b => .ok (.one (.number b.toNat))
    | none => .error (.one e)
  | .bytes _ first last, .many es =>
    if offset + last ≤ buffer.length ∧ es.length = last - first then
      .ok (.many (byteElements ((buffer.drop (offset + first)).take (last - first))))
    else .error (.many es)
  | .eachRecord _ first stride, .many es =>
    (c.readEach buffer stride (offset + first) es).map .many
  | .eachScalar _ first stride, .many es =>
    (c.readEach buffer stride (offset + first) es).map .many
  | _, v => .error v

/-- Runs a statement that writes a field whose elements have the codec `c`. -/
def WriteStatement.run (c : Codec (Element ρ)) (offset : Nat) (s : WriteStatement)
    (v : FieldValue ρ) (buffer : Bytes) : Attempt Bytes :=
  match s, v with
  | .record _ pos, .one e => c.write e buffer (offset + pos)
  | .scalar _ pos, .one e => c.write e buffer (offset + pos)
  | .bytes _ first last, .many es =>
    if offset + last ≤ buffer.length ∧ es.length = last - first then
      .ok (Scalar.splice buffer (offset + first) (es.map elementByte))
    else .error buffer
  | .eachRecord _ first stride, .many es => c.writeEach stride (offset + first) es buffer
  | .eachScalar _ first stride, .many es => c.writeEach stride (offset + first) es buffer
  | _, _ => .error buffer

end Code

namespace Field

/-- The codec of the elements of a field; `records` gives those of the record types. -/
def codec (records : String → Codec ρ) (f : Field) : Codec (Element ρ) :=
  if f.isRecord then (records f.targetType).nested
  else ((Scalar.ofName? f.targetType).getD .u8).codec

def initial (records : String → Codec ρ) (f : Field) : FieldValue ρ :=
  match f.count with
  | some n => .many (List.replicate n (f.codec records).initial)
  | none => .one (f.codec records).initial

end Field

namespace RecordDef

/-- Runs the reading statements of fields in their order. -/
def readFields (records : String → Codec ρ) (buffer : Bytes) (offset : Nat) :
    List Field → RecordValue ρ → Attempt (RecordValue ρ)
  | f :: fs, v :: vs =>
    match f.readStatement.run (f.codec records) buffer offset v with
    | .error v' => .error (v' :: vs)
    | .ok v' => (readFields records buffer offset fs vs).map (v' :: ·)
  | _, vs => .ok vs

/-- Runs the writing statements of fields in their order. -/
def writeFields (records : String → Codec ρ) (offset : Nat) :
    List Field → RecordValue ρ → Bytes → Attempt Bytes
  | f :: fs, v :: vs, buffer =>
    match f.writeStatement.run (f.codec records) offset v buffer with
    | .error b => .error b
    | .ok b => writeFields records offset fs vs b
  | _, _, buffer => .ok buffer

/-- What the record code of a definition does. -/
def codec (records : String → Codec ρ) (d : RecordDef) : Codec (RecordValue ρ) where
  size := d.size
  initial := d.fields.map (Field.initial records)
  read buffer offset vs := readFields records buffer offset d.fields vs
  write vs buffer offset := writeFields records offset d.fields vs buffer

end RecordDef

end RecordLayout
