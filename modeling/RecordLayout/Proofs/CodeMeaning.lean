import RecordLayout.Proofs.CodeProgram
import RecordLayout.Proofs.RecordCode

/-!
# The meaning of record code

A program means a codec if its statements fit the types that it declares. The text that is written for a
definition means what the definition does (`meaning?_items`), so that it is a codec of the size of the record
as far as the code of the record types inside it is one (`recordCode_lawful`). That the code of these types
keeps values is not enough: it also must not look at bytes outside (`recordCode_masked`).
-/

namespace RecordLayout

variable {ρ : Type}

namespace Code

def ReadStatement.storage : ReadStatement → Storage
  | .record _ _ | .eachRecord _ _ _ => .record
  | .byte _ _ | .bytes _ _ _ => .byte
  | .scalar _ _ | .eachScalar _ _ _ => .scalar

def WriteStatement.storage : WriteStatement → Storage
  | .record _ _ | .eachRecord _ _ _ => .record
  | .bytes _ _ _ => .byte
  | .scalar _ _ | .eachScalar _ _ _ => .scalar

/-- The codec of the elements of a field that a statement accesses, if their type allows the access. -/
def Declared.codec? (records : String → Codec ρ) (f : Declared) : Storage → Option (Codec (Element ρ))
  | .record => some (records f.type).nested
  | .byte => if Scalar.ofName? f.type = some .u8 then some Scalar.u8.codec else none
  | .scalar => (Scalar.ofName? f.type).map Scalar.codec

/-- What a program does with one field. -/
structure Member (ρ : Type) where
  initial : FieldValue ρ
  read : Bytes → Nat → FieldValue ρ → Attempt (FieldValue ρ)
  write : Nat → FieldValue ρ → Bytes → Attempt Bytes

def member? (records : String → Codec ρ) (f : Declared) (r : ReadStatement) (w : WriteStatement) :
    Option (Member ρ) := do
  let reader ← f.codec? records r.storage
  let writer ← f.codec? records w.storage
  let initial := match f.count with
    | some n => .many (List.replicate n reader.initial)
    | none => .one reader.initial
  return ⟨initial, r.run reader, w.run writer⟩

/-- Each statement belongs to the field at its place. -/
def members? (records : String → Codec ρ) :
    List Declared → List ReadStatement → List WriteStatement → Option (List (Member ρ))
  | [], [], [] => some []
  | f :: fs, r :: rs, w :: ws => do
    let m ← member? records f r w
    let ms ← members? records fs rs ws
    return m :: ms
  | _, _, _ => none

/-- Runs the reading statements in their order. -/
def readMembers (buffer : Bytes) (offset : Nat) : List (Member ρ) → RecordValue ρ → Attempt (RecordValue ρ)
  | m :: ms, v :: vs =>
    match m.read buffer offset v with
    | .error v' => .error (v' :: vs)
    | .ok v' => (readMembers buffer offset ms vs).map (v' :: ·)
  | _, vs => .ok vs

/-- Runs the writing statements in their order. -/
def writeMembers (offset : Nat) : List (Member ρ) → RecordValue ρ → Bytes → Attempt Bytes
  | m :: ms, v :: vs, buffer =>
    match m.write offset v buffer with
    | .error b => .error b
    | .ok b => writeMembers offset ms vs b
  | _, _, buffer => .ok buffer

/-- What a program does; `records` does what the code of other record types does. -/
def Program.codec? (records : String → Codec ρ) (p : Program) : Option (Codec (RecordValue ρ)) :=
  (members? records p.fields p.reads p.writes).map fun ms =>
    { size := p.size
      initial := ms.map Member.initial
      read := fun buffer offset vs => readMembers buffer offset ms vs
      write := fun vs buffer offset => writeMembers offset ms vs buffer }

/-- What the text of a program does. -/
def meaning? (records : String → Codec ρ) (text : String) : Option (Codec (RecordValue ρ)) :=
  (CodeGrammar.program.run text.toList).bind fun (p, _) => p.codec? records

end Code

/-! ### What is written means what the definition does -/

variable {records : String → Codec ρ} {valid : String → ρ → Prop}

open Code CodeGrammar

namespace Field

variable {f : Field}

/-- What a definition does with one field. -/
def member (records : String → Codec ρ) (f : Field) : Member ρ :=
  ⟨f.initial records, f.readStatement.run (f.codec records), f.writeStatement.run (f.codec records)⟩

theorem codec?_record (hr : f.isRecord = true) : f.declared.codec? records .record = some (f.codec records) := by
  rw [codec_record hr]
  rfl

theorem Sized.codec?_scalar (h : f.Sized) (hr : f.isRecord = false) :
    f.declared.codec? records .scalar = some (f.codec records) := by
  obtain ⟨t, ht, -, -⟩ := h.exists_scalar hr
  rw [codec_scalar hr ht]
  show (Scalar.ofName? f.targetType).map _ = _
  rw [ht]
  rfl

theorem Sized.codec?_byte (h : f.Sized) (hs : f.storage = .byte) :
    f.declared.codec? records .byte = some (f.codec records) := by
  obtain ⟨hr, -, ht⟩ := h.of_byte hs
  rw [codec_scalar hr ht]
  exact if_pos ht

theorem isRecord_of_storage (hs : f.storage = .record) : f.isRecord = true := by
  unfold storage at hs
  split at hs
  · assumption
  · split at hs <;> cases hs

theorem isRecord_of_storage_scalar (hs : f.storage = .scalar) : f.isRecord = false := by
  unfold storage at hs
  split at hs
  · cases hs
  · next hr => exact Bool.eq_false_iff.mpr hr

theorem Sized.codec?_readStatement (h : f.Sized) :
    f.declared.codec? records f.readStatement.storage = some (f.codec records) := by
  unfold readStatement
  cases hs : f.storage with
  | record => cases f.isArray <;> exact codec?_record (isRecord_of_storage hs)
  | byte => cases f.isArray <;> exact h.codec?_byte hs
  | scalar => cases f.isArray <;> exact h.codec?_scalar (isRecord_of_storage_scalar hs)

theorem Sized.codec?_writeStatement (h : f.Sized) :
    f.declared.codec? records f.writeStatement.storage = some (f.codec records) := by
  unfold writeStatement
  cases hs : f.storage with
  | record => cases f.isArray <;> exact codec?_record (isRecord_of_storage hs)
  | byte =>
    cases f.isArray with
    | true => exact h.codec?_byte hs
    | false => exact h.codec?_scalar (h.of_byte hs).1
  | scalar => cases f.isArray <;> exact h.codec?_scalar (isRecord_of_storage_scalar hs)

theorem Sized.member? (h : f.Sized) :
    Code.member? records f.declared f.readStatement f.writeStatement = some (f.member records) := by
  rw [Code.member?, h.codec?_readStatement, h.codec?_writeStatement]
  rfl

end Field

theorem members?_fields {fields : List Field} (h : ∀ f ∈ fields, f.Sized) :
    members? records (fields.map Field.declared) (fields.map Field.readStatement) (fields.map Field.writeStatement) =
      some (fields.map (Field.member records)) := by
  induction fields with
  | nil => rfl
  | cons f fs ih =>
    rw [List.forall_mem_cons] at h
    simp only [List.map_cons, members?, h.1.member?, ih h.2]
    rfl

theorem readMembers_fields (buffer : Bytes) (offset : Nat) (fields : List Field) (vs : RecordValue ρ) :
    readMembers buffer offset (fields.map (Field.member records)) vs =
      RecordDef.readFields records buffer offset fields vs := by
  induction fields generalizing vs with
  | nil => rfl
  | cons f fs ih =>
    cases vs with
    | nil => rfl
    | cons v vs =>
      rw [List.map_cons, readMembers, RecordDef.readFields, ih]
      rfl

theorem writeMembers_fields (offset : Nat) (fields : List Field) (vs : RecordValue ρ) (buffer : Bytes) :
    writeMembers offset (fields.map (Field.member records)) vs buffer =
      RecordDef.writeFields records offset fields vs buffer := by
  induction fields generalizing vs buffer with
  | nil => rfl
  | cons f fs ih =>
    cases vs with
    | nil => rfl
    | cons v vs =>
      rw [List.map_cons, writeMembers, RecordDef.writeFields]
      simp only [ih]
      rfl

/-- The program that is written for a definition does what the definition says. -/
theorem codec?_programOf {d : RecordDef} (h : ∀ f ∈ d.fields, f.Sized) :
    (programOf d).codec? records = some (d.codec records) := by
  show (members? records _ _ _).map _ = _
  rw [programOf, members?_fields h, Option.map_some]
  simp only [readMembers_fields, writeMembers_fields, List.map_map]
  rfl

theorem render_eq (path : String) (d : RecordDef) :
    render path d = text (preamble path d ++ layoutComment d) ++ text (itemLines d) := by
  rw [← text_append, itemLines]
  simp only [← List.append_assoc]
  rfl

namespace Conversion

variable {σ : Type} [SizeSource σ] {c : Conversion σ} {source : Source} {d : RecordDef}

theorem declarable_of_readFrom (h : ((readFrom source).run c).result = .ok d) : ∀ f ∈ d.fields, Declarable f := by
  intro f hf
  have ht := (isRead_of_readFrom h f hf).tidy
  exact ⟨isToken_codeName ht.isToken_identifier, ht.isToken_targetType, newline_not_mem_of_readFrom h f hf⟩

/-- The text that is written for a definition that was read does what the definition says. -/
theorem meaning?_items (h : ((readFrom source).run c).result = .ok d) :
    meaning? records (text (itemLines d)) = some (d.codec records) := by
  rw [meaning?, run_program (isToken_name_of_readFrom h) (declarable_of_readFrom h)]
  exact codec?_programOf (laidOut_of_readFrom h).sized

/-- The record code of every definition that is read is a codec of the size of the record, if that of
each record type that it uses is one of the size known for it. Behind the layout comment, the text of the code
has a meaning as a program: at every offset it writes the bytes of the record and no others, reads back what it
wrote, leaves a buffer as it is when it writes what it read there, and reads the same whatever stands outside. If
the record types also fill all of their bytes, then so does the record. -/
theorem recordCode_lawful (c : Conversion σ) (source : Source) (d : RecordDef)
    (hd : ((readFrom source).run c).result = .ok d) (path : String) (records : String → Codec ρ)
    (valid : String → ρ → Prop)
    (hrec : ∀ f ∈ d.fields, f.isRecord = true →
      (records f.targetType).Lawful f.elementSize (valid f.targetType)) :
    ∃ items codec, Code.render path d = text (preamble path d ++ layoutComment d) ++ items ∧
      meaning? records items = some codec ∧ codec.size = d.size ∧ codec.Lawful d.size (d.Fits valid) ∧
      ((∀ f ∈ d.fields, f.isRecord = true →
        (records f.targetType).Full f.elementSize (valid f.targetType)) → codec.Full d.size (d.Fits valid)) :=
  ⟨_, _, render_eq path d, meaning?_items hd, rfl, RecordDef.lawful_codec (laidOut_of_readFrom hd) hrec,
    RecordDef.full_codec (laidOut_of_readFrom hd) hrec⟩

/-- A record with an array of records: what its code writes behind the first byte of a buffer is read back
over other values. -/
theorem recordCode_lawful_nested :
    let c : Conversion (String → Option Answer) := ⟨"", .ofEntries [("Inner", 4)], fun _ => none⟩
    let inner : RecordDef := ⟨"Inner", [⟨0, 2, none, "SInt16", "i16", "x", "", false, false⟩,
      ⟨2, 1, some 2, "Char", "u8", "tag", "", false, false⟩]⟩
    let outer : RecordDef := ⟨"Outer", [⟨0, 1, none, "UInt8", "u8", "kind", "", false, false⟩,
      ⟨1, 4, some 2, "Inner", "Inner", "parts", "", true, false⟩]⟩
    let unit : Codec Unit := ⟨0, (), fun _ _ v => .ok v, fun _ b _ => .ok b⟩
    let part (x : Int) : Element (RecordValue Unit) :=
      .record [.one (.number x), .many [.number 65, .number 255]]
    let value (x y : Int) : RecordValue (RecordValue Unit) := [.one (.number 7), .many [part x, part y]]
    ((readFrom (.ofString "struct Inner\nSInt16 x;\nChar tag[2];\n\x7d;")).run c).result = .ok inner ∧
    ((readFrom (.ofString "struct Outer\nUInt8 kind;\nInner parts[2];\n\x7d;")).run c).result = .ok outer ∧
    ∃ items codec, Code.render "" outer = text (preamble "" outer ++ layoutComment outer) ++ items ∧
      meaning? (fun _ => inner.codec fun _ => unit) items = some codec ∧
      ∃ b, codec.write (value (-2) 258) (List.replicate 11 0) 1 = .ok b ∧
        codec.read b 1 (value 0 0) = .ok (value (-2) 258) := by
  intro c inner outer unit part value
  have hi : ((readFrom (.ofString "struct Inner\nSInt16 x;\nChar tag[2];\n\x7d;")).run c).result =
      .ok inner := by decide +kernel
  have ho : ((readFrom (.ofString "struct Outer\nUInt8 kind;\nInner parts[2];\n\x7d;")).run c).result =
      .ok outer := by decide +kernel
  have hinner : (inner.codec fun _ => unit).Lawful 4 (inner.Fits fun _ _ => False) :=
    RecordDef.lawful_codec (laidOut_of_readFrom hi) (by simp [inner])
  obtain ⟨items, codec, hrender, hmeaning, -, houter, -⟩ := recordCode_lawful c _ outer ho ""
    (fun _ => inner.codec fun _ => unit) (fun _ => inner.Fits fun _ _ => False) (by
      simp only [outer, List.forall_mem_cons]
      exact ⟨nofun, fun _ => hinner, by simp⟩)
  have hpart : ∀ x : Int, -32768 ≤ x → x < 32768 →
      Element.Holds (inner.Fits fun _ _ => False) (part x) := by
    intro x h₁ h₂
    refine ⟨[.one (.number x), .many [.number 65, .number 255]],
      .cons ⟨rfl, .i16, rfl, x, ⟨h₁, h₂⟩, rfl⟩ (.cons ⟨rfl, ?_⟩ .nil), rfl⟩
    simp only [List.forall_mem_cons]
    exact ⟨⟨.u8, rfl, 65, by decide, rfl⟩, ⟨.u8, rfl, 255, by decide, rfl⟩, by simp⟩
  have hvalue : ∀ x y : Int, -32768 ≤ x → x < 32768 → -32768 ≤ y → y < 32768 →
      outer.Fits (fun _ => inner.Fits fun _ _ => False) (value x y) := by
    intro x y h₁ h₂ h₃ h₄
    refine .cons ⟨rfl, .u8, rfl, 7, by decide, rfl⟩ (.cons ⟨rfl, ?_⟩ .nil)
    simp only [List.forall_mem_cons]
    exact ⟨hpart x h₁ h₂, hpart y h₃ h₄, by simp⟩
  have hlen : 1 + outer.size ≤ (List.replicate 11 (0 : UInt8)).length := by decide
  have hv := hvalue (-2) 258 (by decide) (by decide) (by decide) (by decide)
  have hw := hvalue 0 0 (by decide) (by decide) (by decide) (by decide)
  obtain ⟨b, hb, -⟩ := (houter 1).write_ok hv hlen
  exact ⟨hi, ho, items, codec, hrender, hmeaning, b, hb, (houter 1).read_write hv hw hlen hb⟩

end Conversion

namespace Codec

/-- A byte under the mask of the byte behind it. -/
def masked : Codec UInt8 where
  size := 1
  initial := 0
  read b offset v :=
    match b[offset]? with
    | some x => .ok (x ^^^ b.getD (offset + 1) 0)
    | none => .error v
  write v b offset :=
    if offset < b.length then .ok (b.set offset (v ^^^ b.getD (offset + 1) 0)) else .error b

theorem masked_keeps : masked.Keeps 1 fun _ => True := by
  intro offset
  have hread {b : Bytes} (hl : offset < b.length) (w : UInt8) :
      masked.read b offset w = .ok (b[offset] ^^^ b.getD (offset + 1) 0) := by
    simp only [masked, List.getElem?_eq_getElem hl]
  have hwrite {b : Bytes} (hl : offset < b.length) (v : UInt8) :
      masked.write v b offset = .ok (b.set offset (v ^^^ b.getD (offset + 1) 0)) := if_pos hl
  constructor
  · intro v b _ hl
    refine ⟨_, hwrite hl v, List.length_set, fun i hi => List.getElem?_set_ne (by omega)⟩
  · intro w b _ hl
    exact ⟨_, hread hl w, trivial⟩
  · intro v w b b' _ _ hl hb
    cases (hwrite hl v).symm.trans hb
    -- the mask is behind the byte that was written
    have hmask : ∀ x, (b.set offset x).getD (offset + 1) 0 = b.getD (offset + 1) 0 := by simp [List.getD]
    show masked.read _ offset w = _
    rw [hread (by simpa using hl), hmask, List.getElem_set_self, UInt8.xor_assoc, UInt8.xor_self, UInt8.xor_zero]
  · intro v w b _ hl hr
    cases (hread hl w).symm.trans hr
    show masked.write _ b offset = _
    rw [hwrite hl, UInt8.xor_assoc, UInt8.xor_self, UInt8.xor_zero, List.set_getElem_self]

end Codec

namespace Conversion

/-- Code that keeps values, but looks at a byte outside, does not keep them inside another record: the field behind it
is written last, and changes the mask. -/
theorem recordCode_masked :
    let c : Conversion (String → Option Answer) := ⟨"", .ofEntries [("Masked", 1)], fun _ => none⟩
    let outer : RecordDef := ⟨"Outer", [⟨0, 1, none, "Masked", "Masked", "first", "", true, false⟩,
      ⟨1, 1, none, "UInt8", "u8", "second", "", false, false⟩]⟩
    ((readFrom (.ofString "struct Outer\nMasked first;\nUInt8 second;\n\x7d;")).run c).result = .ok outer ∧
    Codec.masked.Keeps 1 (fun _ => True) ∧
    ∃ items codec, Code.render "" outer = text (preamble "" outer ++ layoutComment outer) ++ items ∧
      meaning? (fun _ => Codec.masked) items = some codec ∧ ¬codec.Keeps outer.size (outer.Fits fun _ _ => True) := by
  intro c outer
  have ho : ((readFrom (.ofString "struct Outer\nMasked first;\nUInt8 second;\n\x7d;")).run c).result =
      .ok outer := by decide +kernel
  refine ⟨ho, Codec.masked_keeps, _, _, render_eq "" outer, meaning?_items ho, fun h => ?_⟩
  have hfits (n : Int) (hn : Scalar.u8.InRange n) (x : UInt8) :
      outer.Fits (fun _ _ => True) [.one (.record x), .one (.number n)] :=
    .cons ⟨rfl, x, trivial, rfl⟩ (.cons ⟨rfl, .u8, rfl, n, hn, rfl⟩ .nil)
  have hwrite : (outer.codec fun _ => Codec.masked).write [.one (.record 1), .one (.number 1)] [0, 0] 0 =
      .ok [1, 1] := by
    decide +kernel
  have hback := (h 0).read_write (hfits 1 (by decide) 1) (hfits 0 (by decide) 0) (by decide) hwrite
  revert hback
  decide +kernel

end Conversion

end RecordLayout
