import RecordLayout.Binary.Codec

/-!
# Sample records

Three definitions that between them use every kind of field: two scalars; a scalar and an array of
bytes; and a record with records, a byte and an array of scalars.
-/

namespace RecordLayout.Samples

/-- The codec of a record without fields. -/
def nothing : Codec Unit where
  size := 0
  initial := ()
  read _ _ _ := .ok ()
  write _ buffer _ := .ok buffer

def inner : RecordDef where
  name := "Inner"
  fields := [
    { offset := 0, elementSize := 2, count := none, typeName := "UInt16", targetType := "UInt16",
      identifier := "kind", description := "record kind", isRecord := false, isClassName := false },
    { offset := 2, elementSize := 2, count := none, typeName := "SInt16", targetType := "i16",
      identifier := "delta", description := "", isRecord := false, isClassName := false }]

def sample : RecordDef where
  name := "Sample"
  fields := [
    { offset := 0, elementSize := 4, count := none, typeName := "UInt32", targetType := "UInt32",
      identifier := "id", description := "an identifier", isRecord := false, isClassName := false },
    { offset := 4, elementSize := 1, count := some 4, typeName := "UInt8", targetType := "u8",
      identifier := "flags", description := "four flag bytes", isRecord := false,
      isClassName := false }]

def outer : RecordDef where
  name := "Outer"
  fields := [
    { offset := 0, elementSize := 4, count := none, typeName := "be32", targetType := "i32",
      identifier := "magic", description := "magic number", isRecord := false,
      isClassName := false },
    { offset := 4, elementSize := 4, count := none, typeName := "Inner", targetType := "Inner",
      identifier := "first", description := "leading record", isRecord := true,
      isClassName := false },
    { offset := 8, elementSize := 4, count := some 2, typeName := "Inner", targetType := "Inner",
      identifier := "rest", description := "trailing records", isRecord := true,
      isClassName := false },
    { offset := 16, elementSize := 1, count := none, typeName := "Char", targetType := "u8",
      identifier := "tag", description := "", isRecord := false, isClassName := false },
    { offset := 17, elementSize := 4, count := some 2, typeName := "UInt32", targetType := "UInt32",
      identifier := "words", description := "two big-endian words", isRecord := false,
      isClassName := false }]

abbrev Flat := RecordValue Unit

abbrev Nested := RecordValue Flat

def innerCodec : Codec Flat := inner.codec fun _ => nothing

def sampleCodec : Codec Flat := sample.codec fun _ => nothing

def outerCodec : Codec Nested := outer.codec fun _ => innerCodec

end RecordLayout.Samples
