import RecordLayout.Action
import RecordLayout.Definition.Error
import RecordLayout.Text.Integer

/-!
# Declarators

A declarator is an identifier with a suffix: nothing, `;`, `[N]` or `[N];`, where `N` is an optional
minus and decimal digits. The identifier is as short as it can be: it ends at the first position behind
which nothing but a suffix follows.
-/

namespace RecordLayout

/-- What may follow the identifier. -/
structure Suffix where
  /-- The number between brackets. -/
  length : Option Int
  /-- A semicolon ends the declarator. -/
  closed : Bool
  deriving DecidableEq, Repr

namespace Suffix

/-- An optional minus and at least one decimal digit. -/
def number? (cs : List Char) : Option Int :=
  match cs with
  | '-' :: ds =>
    if !ds.isEmpty && ds.all Char.isDigit then some (-Int.ofNat (Text.natOfDigits ds)) else none
  | ds => if !ds.isEmpty && ds.all Char.isDigit then some (Int.ofNat (Text.natOfDigits ds)) else none

/-- Reads a text that is a suffix as a whole. -/
def ofChars? (cs : List Char) : Option Suffix :=
  match cs with
  | [] => some ⟨none, false⟩
  | [';'] => some ⟨none, true⟩
  | '[' :: rest =>
    match rest.dropWhile (· != ']') with
    | [']'] => (number? (rest.takeWhile (· != ']'))).map fun n => ⟨some n, false⟩
    | [']', ';'] => (number? (rest.takeWhile (· != ']'))).map fun n => ⟨some n, true⟩
    | _ => none
  | _ => none

/-- The largest array length. -/
def maxLength : Int := Int.ofNat (UInt64.size / 2 - 1)

end Suffix

/-- Cuts a declarator at the first position where a suffix follows. -/
def splitDeclarator : List Char → List Char × Suffix
  | [] => ([], ⟨none, false⟩)
  | c :: cs =>
    match Suffix.ofChars? (c :: cs) with
    | some suffix => ([], suffix)
    | none =>
      let (identifier, suffix) := splitDeclarator cs
      (c :: identifier, suffix)

structure Declarator where
  identifier : String
  /-- The number of elements of an array. -/
  count : Option Nat
  deriving DecidableEq, Repr

/-- Reads a declarator. A length without a semicolon is checked, then dropped with a warning. -/
def Declarator.read {σ : Type} (token : String) (line : Nat) :
    Action σ DefinitionError Declarator :=
  let (identifier, suffix) := splitDeclarator token.toList
  let identifier := String.ofList identifier
  if identifier = "" then .fail (.malformedMember line token)
  else
    match suffix.length with
    | none => pure ⟨identifier, none⟩
    | some n =>
      if n < 0 ∨ Suffix.maxLength < n then .fail (.invalidArraySize token line)
      else if suffix.closed then pure ⟨identifier, some n.toNat⟩
      else do
        .log .warn .definition
          s!"line {line}: `{token}` has an array length but no `;`; treating `{identifier}` as a scalar"
        pure ⟨identifier, none⟩

end RecordLayout
