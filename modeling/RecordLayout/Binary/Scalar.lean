import RecordLayout.Stream.Bytes

/-!
# Big-endian scalars in a buffer

A scalar occupies `width` bytes, the most significant first; a signed one is in two's complement.
Reading and writing happen only inside the buffer.
-/

namespace RecordLayout

inductive Scalar where
  | u8
  | i8
  | u16
  | i16
  | u32
  | i32
  | u64
  | i64
  deriving DecidableEq, Repr

/-- The bytes of a number, most significant first; what does not fit is cut off. -/
def bigEndian : Nat → Nat → Bytes
  | 0, _ => []
  | width + 1, n => UInt8.ofNat (n / Nat.pow 256 width) :: bigEndian width n

/-- The number that bytes stand for, most significant first. -/
def ofBigEndian (b : Bytes) : Nat := b.foldl (fun n x => 256 * n + x.toNat) 0

/-- The state that an attempt leaves: at its end, or where it had to stop. -/
abbrev Attempt (σ : Type) := Except σ σ

/-- The same attempt seen in a larger state. -/
def Attempt.map {σ τ : Type} (f : σ → τ) : Attempt σ → Attempt τ
  | .ok s => .ok (f s)
  | .error s => .error (f s)

namespace Scalar

def width : Scalar → Nat
  | .u8 | .i8 => 1
  | .u16 | .i16 => 2
  | .u32 | .i32 => 4
  | .u64 | .i64 => 8

def isSigned : Scalar → Bool
  | .i8 | .i16 | .i32 | .i64 => true
  | _ => false

/-- One more than the largest unsigned value. -/
def modulus (t : Scalar) : Nat := Nat.pow 256 t.width

/-- The values of the type. -/
def InRange (t : Scalar) (v : Int) : Prop :=
  if t.isSigned then -(t.modulus / 2 : Nat) ≤ v ∧ v < (t.modulus / 2 : Nat) else 0 ≤ v ∧ v < t.modulus

instance (t : Scalar) (v : Int) : Decidable (t.InRange v) :=
  inferInstanceAs (Decidable (if t.isSigned then _ ∧ _ else _ ∧ _))

/-- The type of a name in record code. -/
def ofName? (name : String) : Option Scalar :=
  match name with
  | "u8" => some .u8
  | "i8" => some .i8
  | "u16" | "UInt16" => some .u16
  | "i16" => some .i16
  | "u32" | "UInt32" => some .u32
  | "i32" => some .i32
  | "u64" | "UInt64" => some .u64
  | "i64" => some .i64
  | _ => none

def decode (t : Scalar) (b : Bytes) : Int :=
  let n := ofBigEndian b
  if t.isSigned && t.modulus / 2 ≤ n then (n : Int) - t.modulus else n

def encode (t : Scalar) (v : Int) : Bytes := bigEndian t.width (v % t.modulus).toNat

/-- The value at an offset; `none` if it would reach behind the buffer. -/
def read? (t : Scalar) (buffer : Bytes) (offset : Nat) : Option Int :=
  if offset + t.width ≤ buffer.length then some (t.decode ((buffer.drop offset).take t.width))
  else none

/-- Writes bytes over those at an offset inside the buffer. -/
def splice (buffer : Bytes) (offset : Nat) (b : Bytes) : Bytes :=
  buffer.take offset ++ b ++ buffer.drop (offset + b.length)

/-- Writes a value at an offset, and nothing if it would reach behind the buffer. -/
def write (t : Scalar) (v : Int) (buffer : Bytes) (offset : Nat) : Attempt Bytes :=
  if offset + t.width ≤ buffer.length then .ok (splice buffer offset (t.encode v)) else .error buffer

end Scalar

end RecordLayout
