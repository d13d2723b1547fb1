import RecordLayout.Text.Blank
import RecordLayout.Definition.Error

/-!
# Lines of a definition

The header names the record with its second token. A member line is a type, a declarator and a
description; the description is all that follows the declarator, without the blanks around it.
-/

namespace RecordLayout

/-- The line that closes a list of members. -/
def terminator : String := "\x7d;"

structure MemberLine where
  typeName : String
  declarator : String
  description : String
  deriving DecidableEq, Repr

/-- Splits a line that starts with its type; `none` if it starts with a blank or has fewer than two
tokens. -/
def MemberLine.ofString? (line : String) : Option MemberLine := do
  let cs := line.toList
  let typeName ← Text.nonempty? (Text.token cs)
  let rest := Text.trimStart (Text.afterToken cs)
  let declarator ← Text.nonempty? (Text.token rest)
  return {
    typeName := String.ofList typeName
    declarator := String.ofList declarator
    description := String.ofList (Text.trim (Text.afterToken rest)) }

/-- The name in a header. -/
def headerName? (text : String) : Option String :=
  (Text.secondToken? text.toList).map String.ofList

def readHeader (text : String) (line : Nat) : Except DefinitionError String :=
  match headerName? text with
  | some name => .ok name
  | none => .error (.malformedHeader line text)

end RecordLayout
