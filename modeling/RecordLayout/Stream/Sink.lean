import RecordLayout.Action
import RecordLayout.Stream.Fault

/-!
# Sinks

A sink takes bytes until its room is used up. A write that does not fit leaves the part that did.
-/

namespace RecordLayout

/-- When a sink fails. -/
inductive SinkLimit where
  | never
  /-- `room` bytes are taken in all, then writing fails. -/
  | full (room : Nat) (fault : IoFault)
  /-- Every byte is taken, and flushing fails. -/
  | flush (fault : IoFault)
  deriving DecidableEq, Repr

structure Sink where
  limit : SinkLimit
  accepted : Bytes
  deriving DecidableEq, Repr

namespace Sink

def ofLimit (limit : SinkLimit) : Sink := ⟨limit, []⟩

/-- The part of `text` that the sink takes. -/
def takes (s : Sink) (text : Bytes) : Bytes :=
  match s.limit with
  | .full room _ => text.take (room - s.accepted.length)
  | _ => text

/-- The failure of writing `text`, if it does not fit. -/
def writeFault? (s : Sink) (text : Bytes) : Option IoFault :=
  match s.limit with
  | .full room fault => if s.accepted.length + text.length ≤ room then none else some fault
  | _ => none

def write (text : Bytes) : Action Sink IoFault Unit := fun s =>
  let after := { s with accepted := s.accepted ++ s.takes text }
  match s.writeFault? text with
  | none => ⟨.ok (), after, []⟩
  | some fault => ⟨.error fault, after, []⟩

def flush : Action Sink IoFault Unit := fun s =>
  match s.limit with
  | .flush fault => ⟨.error fault, s, []⟩
  | _ => ⟨.ok (), s, []⟩

theorem quiet_write (text : Bytes) : (write text).Quiet := by
  intro s
  show askedTypes (match s.writeFault? text with | none => _ | some _ => _ : Outcome ..).events = []
  split <;> rfl

theorem quiet_flush : flush.Quiet := by
  intro s
  show askedTypes (match s.limit with | .flush _ => _ | _ => _ : Outcome ..).events = []
  split <;> rfl

end Sink

end RecordLayout
