import RecordLayout.Stream.Fault
import RecordLayout.Text.Quoted

/-!
# What can be wrong with a definition
-/

namespace RecordLayout

inductive DefinitionError where
  | malformedHeader (line : Nat) (text : String)
  | malformedMember (line : Nat) (text : String)
  | unresolvableType (typeName : String) (line : Nat)
  | invalidArraySize (declarator : String) (line : Nat)
  | io (fault : IoFault)
  deriving DecidableEq, Repr

def DefinitionError.message : DefinitionError → String
  | .malformedHeader line text =>
    s!"Malformed header (line {line}): expected `<keyword> <StructName>`, found " ++ Text.quote text
  | .malformedMember line text =>
    s!"Malformed member (line {line}): expected `<Type> <name>; [description]`, found " ++
      Text.quote text
  | .unresolvableType typeName line =>
    s!"Unresolvable type `{typeName}` (line {line}): not a primitive, not cached, and no size was supplied"
  | .invalidArraySize declarator line => s!"Invalid array size in `{declarator}` (line {line})"
  | .io fault => "IO: " ++ fault.message

end RecordLayout
