import RecordLayout.Action
import RecordLayout.Stream.Fault

/-!
# Sources of sizes

Who is asked for the size of a type that is neither built in nor known. A size source has a state, may
decline, and may fail.
-/

namespace RecordLayout

/-- The size of a type as it was given. -/
structure Answer where
  size : Nat
  /-- The answer was negative: the type is named by a class. -/
  isClassName : Bool
  size_pos : 0 < size
  deriving DecidableEq, Repr

/-- A signed number as an answer; zero is none. -/
def Answer.ofInt? (n : Int) : Option Answer :=
  if h : n = 0 then none else some ⟨n.natAbs, n < 0, Int.natAbs_pos.mpr h⟩

class SizeSource (ρ : Type) where
  ask : String → Action ρ IoFault (Option Answer)
  /-- Asking is what others do to a source, not what it does. -/
  quiet : ∀ typeName, (ask typeName).Quiet

/-- A function of the name answers without a state. -/
instance : SizeSource (String → Option Answer) where
  ask typeName := do return (← .state) typeName
  quiet _ := .bind .state fun _ => .pure _

end RecordLayout
