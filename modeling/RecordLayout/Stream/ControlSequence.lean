import RecordLayout.Stream.Bytes

/-!
# Text without control sequences

Text that goes to a log may hold bytes that steer a terminal: control characters, and sequences that
an escape byte opens. `Bytes.plain` leaves them out. It keeps visible characters and the blanks tab,
newline, form feed and carriage return.
-/

namespace RecordLayout

/-- Where a byte stands. -/
inductive ControlSequence where
  /-- Outside of every sequence. -/
  | ground
  /-- Behind the first byte of a character, which `rest` more bytes belong to. -/
  | character (rest : Nat)
  /-- Behind an escape byte. -/
  | escape
  /-- Behind an escape byte and intermediate bytes. -/
  | intermediate
  /-- In a sequence that `ESC [` opened. -/
  | control
  /-- In a system command, which `ESC ]` opened. -/
  | command
  /-- At the start of a device string, which `ESC P` opened. -/
  | device
  /-- Behind a parameter of a device string. -/
  | deviceParameter
  /-- Behind an intermediate byte of a device string. -/
  | deviceIntermediate
  /-- In the body of a string. -/
  | body
  deriving DecidableEq, Repr

namespace ControlSequence

/-- The place behind a byte; `none` if it stays the same. -/
def next? (s : ControlSequence) (b : UInt8) : Option ControlSequence :=
  if b = 0x18 ∨ b = 0x1a then some .ground
  else if b = 0x1b then some .escape
  else
    match s with
    | .ground =>
      if 0xc2 ≤ b ∧ b ≤ 0xdf then some (.character 1)
      else if 0xe0 ≤ b ∧ b ≤ 0xef then some (.character 2)
      else if 0xf0 ≤ b ∧ b ≤ 0xf4 then some (.character 3)
      else none
    | .character rest => some (if rest ≤ 1 then .ground else .character (rest - 1))
    | .escape =>
      if 0x20 ≤ b ∧ b ≤ 0x2f then some .intermediate
      else if b = 0x50 then some .device
      else if b = 0x5b then some .control
      else if b = 0x5d then some .command
      else if b = 0x58 ∨ b = 0x5e ∨ b = 0x5f then some .body
      else if 0x30 ≤ b ∧ b ≤ 0x7e then some .ground
      else none
    | .intermediate => if 0x30 ≤ b ∧ b ≤ 0x7e then some .ground else none
    | .control => if 0x40 ≤ b ∧ b ≤ 0x7e then some .ground else none
    | .command => if b = 0x07 then some .ground else none
    | .device =>
      if 0x20 ≤ b ∧ b ≤ 0x2f then some .deviceIntermediate
      else if 0x30 ≤ b ∧ b ≤ 0x3f then some .deviceParameter
      else if 0x40 ≤ b ∧ b ≤ 0x7e then some .body
      else none
    | .deviceParameter =>
      if 0x20 ≤ b ∧ b ≤ 0x2f then some .deviceIntermediate
      else if 0x3c ≤ b ∧ b ≤ 0x7e then some .body
      else none
    | .deviceIntermediate => if 0x30 ≤ b ∧ b ≤ 0x7e then some .body else none
    | .body => if b = 0x9c then some .ground else none

/-- A control character that is kept as a blank. -/
def isBlankByte (b : UInt8) : Bool := b = 0x09 || b = 0x0a || b = 0x0c || b = 0x0d

/-- Whether a byte at this place is kept. A blank is, even inside a short sequence. -/
def keeps (s : ControlSequence) (b : UInt8) : Bool :=
  match s with
  | .ground => (0x20 ≤ b && b ≤ 0x7e) || (0xc2 ≤ b && b ≤ 0xf4) || isBlankByte b
  | .character _ => true
  | .escape | .intermediate | .control => isBlankByte b
  | _ => false

end ControlSequence

/-- How far the filter has come. In a run of bytes that are kept, the place of the last byte that was left
out is remembered: it counts again once the run ends. -/
structure ControlFilter where
  place : ControlSequence
  /-- The last byte was kept. -/
  keeping : Bool
  deriving DecidableEq, Repr

namespace ControlFilter

def start : ControlFilter := ⟨.ground, false⟩

/-- The place that a byte in a run of kept bytes is looked at from: bytes of a character belong to it,
and all others stand outside of sequences. -/
def runPlace : ControlSequence → ControlSequence
  | .character rest => .character rest
  | _ => .ground

/-- Takes a byte and tells whether it is kept. -/
def step (f : ControlFilter) (b : UInt8) : ControlFilter × Bool :=
  if f.keeping then
    let place := ((runPlace f.place).next? b).getD f.place
    if (runPlace f.place).keeps b then (⟨place, true⟩, true)
    else (⟨(place.next? b).getD place, false⟩, false)
  else (⟨(f.place.next? b).getD f.place, f.place.keeps b⟩, f.place.keeps b)

end ControlFilter

namespace Bytes

/-- What a filter leaves of a text. -/
def filtered : ControlFilter → Bytes → Bytes
  | _, [] => []
  | f, b :: rest =>
    let (f', kept) := f.step b
    if kept then b :: filtered f' rest else filtered f' rest

/-- A text without control characters and control sequences. -/
def plain (text : Bytes) : Bytes := filtered .start text

end Bytes

end RecordLayout
