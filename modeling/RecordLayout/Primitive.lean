/-!
# Built-in types

The types whose size is fixed, and the name each type has in record code. A name that is not built in
is used as it stands.
-/

namespace RecordLayout

/-- The bytes of a built-in type. -/
def primitiveSize? (typeName : String) : Option Nat :=
  match typeName with
  | "UInt8" | "SInt8" | "Char" => some 1
  | "UInt16" | "SInt16" => some 2
  | "UInt32" | "SInt32" | "be32" => some 4
  | "UInt64" | "SInt64" | "be64" => some 8
  | _ => none

/-- The type of a field in record code. -/
def targetType (typeName : String) : String :=
  match typeName with
  | "UInt8" | "SInt8" | "Char" => "u8"
  | "SInt16" => "i16"
  | "SInt32" | "be32" => "i32"
  | "SInt64" | "be64" => "i64"
  | other => other

end RecordLayout
