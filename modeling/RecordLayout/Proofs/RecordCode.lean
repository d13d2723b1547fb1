import RecordLayout.Proofs.Layout
import RecordLayout.Proofs.Slots
import Mathlib.Data.List.Forall2

/-!
# Record code is a codec

The statements that read and write a field agree on one slot of the buffer, which is as wide as the
field (`Field.Sized.slot`); the slots of the fields of a definition lie one behind the other, so the whole
record is a slot of its own (`lawful_codec`). Nested records are stored by codecs of which only the same is
known. If these fill their bytes, so does the record (`full_codec`).
-/

namespace RecordLayout

/-- A built-in type is as wide in record code as in a definition, and a single byte is unsigned. -/
theorem exists_scalar_of_primitiveSize? {typeName : String} {n : Nat} (h : primitiveSize? typeName = some n) :
    ∃ t, Scalar.ofName? (targetType typeName) = some t ∧ t.width = n ∧ (n = 1 → t = .u8) := by
  unfold primitiveSize? at h
  split at h <;> cases h
  all_goals exact ⟨_, rfl, rfl, by decide⟩

variable {ρ : Type} {records : String → Codec ρ} {valid : String → ρ → Prop}

namespace Field

/-- The elements of a field; `valid` says which records a record type has. -/
def ElementFits (valid : String → ρ → Prop) (f : Field) (e : Element ρ) : Prop :=
  if f.isRecord then Element.Holds (valid f.targetType) e
  else ∃ t, Scalar.ofName? f.targetType = some t ∧ t.Holds e

/-- The values of a field: an element, or as many as the array has. -/
def Fits (valid : String → ρ → Prop) (f : Field) : FieldValue ρ → Prop
  | .one e => f.count = none ∧ f.ElementFits valid e
  | .many es => f.count = some es.length ∧ ∀ e ∈ es, f.ElementFits valid e

variable {f : Field} {n : Nat}

theorem Fits.one_iff (hc : f.count = none) {v : FieldValue ρ} :
    f.Fits valid v ↔ ∃ e, f.ElementFits valid e ∧ .one e = v := by
  cases v with
  | one e => simp [Fits, hc]
  | many es => simp [Fits, hc]

theorem Fits.many_iff (hc : f.count = some n) {v : FieldValue ρ} :
    f.Fits valid v ↔ ∃ es, (es.length = n ∧ ∀ e ∈ es, f.ElementFits valid e) ∧ .many es = v := by
  cases v with
  | one e => simp [Fits, hc]
  | many es => simp [Fits, hc, eq_comm]

theorem codec_record (hr : f.isRecord = true) : f.codec records = (records f.targetType).nested := by
  rw [codec, if_pos hr]

theorem codec_scalar (hr : f.isRecord = false) {t : Scalar} (ht : Scalar.ofName? f.targetType = some t) :
    f.codec records = t.codec := by
  rw [codec, hr, ht]
  rfl

theorem elementFits_scalar (hr : f.isRecord = false) {t : Scalar}
    (ht : Scalar.ofName? f.targetType = some t) {e : Element ρ} : f.ElementFits valid e ↔ t.Holds e := by
  simp [ElementFits, hr, ht]

theorem Sized.exists_scalar (h : f.Sized) (hr : f.isRecord = false) :
    ∃ t, Scalar.ofName? f.targetType = some t ∧ t.width = f.elementSize ∧ (f.elementSize = 1 → t = .u8) := by
  rw [h.target_eq]
  exact exists_scalar_of_primitiveSize? (h.builtIn hr)

theorem elementFits_scalar_eq (hr : f.isRecord = false) {t : Scalar}
    (ht : Scalar.ofName? f.targetType = some t) : f.ElementFits (ρ := ρ) valid = t.Holds := by
  funext e
  exact propext (elementFits_scalar hr ht)

theorem elementFits_record (hr : f.isRecord = true) :
    f.ElementFits (ρ := ρ) valid = Element.Holds (valid f.targetType) := by
  funext e
  rw [ElementFits, if_pos hr]

/-- What scalars and nested records have in common holds of the elements of every field. -/
theorem Sized.codec_cases {P : Codec (Element ρ) → Nat → (Element ρ → Prop) → Prop} (h : f.Sized)
    (hscalar : ∀ t : Scalar, P t.codec t.width t.Holds)
    (hrecord : f.isRecord = true →
      P (records f.targetType).nested f.elementSize (Element.Holds (valid f.targetType))) :
    P (f.codec records) f.elementSize (f.ElementFits valid) := by
  cases hr : f.isRecord with
  | true =>
    rw [codec_record hr, elementFits_record hr]
    exact hrecord hr
  | false =>
    obtain ⟨t, ht, hw, -⟩ := h.exists_scalar hr
    rw [codec_scalar hr ht, elementFits_scalar_eq hr ht, ← hw]
    exact hscalar t

theorem Sized.lawful_codec (h : f.Sized)
    (hrec : f.isRecord = true → (records f.targetType).Lawful f.elementSize (valid f.targetType)) :
    (f.codec records).Lawful f.elementSize (f.ElementFits valid) :=
  h.codec_cases (fun t => t.lawful_codec) fun hr => (hrec hr).nested

theorem Sized.full_codec (h : f.Sized)
    (hrec : f.isRecord = true → (records f.targetType).Full f.elementSize (valid f.targetType)) :
    (f.codec records).Full f.elementSize (f.ElementFits valid) :=
  h.codec_cases (fun t => t.full_codec) fun hr => (hrec hr).nested

/-! ### The two statements of a field -/

theorem stop_of_count (hc : f.count = some n) : f.stop = f.offset + f.elementSize * n := by
  rw [stop, size, hc, Option.getD_some]

theorem Sized.of_byte (h : f.Sized) (hs : f.storage = .byte) :
    f.isRecord = false ∧ f.elementSize = 1 ∧ Scalar.ofName? f.targetType = some .u8 := by
  unfold storage at hs
  split at hs
  · cases hs
  · rename_i hr
    split at hs
    · rename_i hone
      obtain ⟨t, ht, -, hu⟩ := h.exists_scalar (Bool.eq_false_iff.mpr hr)
      exact ⟨Bool.eq_false_iff.mpr hr, hone, hu hone ▸ ht⟩
    · cases hs

theorem isArray_of_none (hc : f.count = none) : f.isArray = false := by
  rw [isArray, hc]
  rfl

theorem Sized.read_one (h : f.Sized) (hc : f.count = none) (b : Bytes) (offset : Nat) (e : Element ρ) :
    f.readStatement.run (f.codec records) b offset (.one e) =
      ((f.codec records).read b (offset + f.offset) e).map .one := by
  rw [readStatement, isArray_of_none hc]
  cases hs : f.storage with
  | record => rfl
  | scalar => rfl
  | byte =>
    obtain ⟨hr, -, ht⟩ := h.of_byte hs
    rw [codec_scalar hr ht, read_u8]
    simp only [Code.ReadStatement.run]
    cases b[offset + f.offset]? <;> rfl

theorem write_one (hc : f.count = none) (b : Bytes) (offset : Nat) (e : Element ρ) :
    f.writeStatement.run (f.codec records) offset (.one e) b =
      (f.codec records).write e b (offset + f.offset) := by
  rw [writeStatement, isArray_of_none hc]
  cases f.storage <;> rfl

theorem read_each (hc : f.isArray = true) (hs : f.storage ≠ .byte) (c : Codec (Element ρ)) (b : Bytes) (offset : Nat)
    (es : List (Element ρ)) :
    f.readStatement.run c b offset (.many es) = (c.readEach b f.elementSize (offset + f.offset) es).map .many := by
  rw [readStatement, hc]
  cases h : f.storage with
  | record => rfl
  | scalar => rfl
  | byte => exact absurd h hs

theorem write_each (hc : f.isArray = true) (hs : f.storage ≠ .byte) (c : Codec (Element ρ)) (b : Bytes) (offset : Nat)
    (es : List (Element ρ)) :
    f.writeStatement.run c offset (.many es) b = c.writeEach f.elementSize (offset + f.offset) es b := by
  rw [writeStatement, hc]
  cases h : f.storage with
  | record => rfl
  | scalar => rfl
  | byte => exact absurd h hs

theorem isArray_of_count (hc : f.count = some n) : f.isArray = true := by
  rw [isArray, hc]
  rfl

theorem Sized.stop_bytes (h : f.Sized) (hs : f.storage = .byte) (hc : f.count = some n) : f.stop = f.offset + n := by
  rw [stop_of_count hc, (h.of_byte hs).2.1, Nat.one_mul]

theorem Sized.read_many (h : f.Sized) {es : List (Element ρ)} (hc : f.count = some es.length) {b : Bytes}
    {offset : Nat} (hl : offset + f.stop ≤ b.length) :
    f.readStatement.run (f.codec records) b offset (.many es) =
      ((f.codec records).readEach b f.elementSize (offset + f.offset) es).map .many := by
  have ha := isArray_of_count hc
  by_cases hs : f.storage = .byte
  · -- all bytes are copied at once
    obtain ⟨hr, hone, ht⟩ := h.of_byte hs
    have hstop := h.stop_bytes hs hc
    have hlen : f.stop - f.offset = es.length := by omega
    rw [codec_scalar hr ht, hone, readEach_u8 es (by omega), readStatement, ha, hs]
    simp only [Code.ReadStatement.run]
    rw [hlen, if_pos ⟨hl, rfl⟩]
    rfl
  · exact read_each ha hs _ b offset es

theorem Sized.write_many (h : f.Sized) {es : List (Element ρ)} (hf : f.Fits valid (.many es)) {b : Bytes}
    {offset : Nat} (hl : offset + f.stop ≤ b.length) :
    f.writeStatement.run (f.codec records) offset (.many es) b =
      (f.codec records).writeEach f.elementSize (offset + f.offset) es b := by
  have hc : f.count = some es.length := hf.1
  have ha := isArray_of_count hc
  by_cases hs : f.storage = .byte
  · obtain ⟨hr, hone, ht⟩ := h.of_byte hs
    have hstop := h.stop_bytes hs hc
    have hlen : f.stop - f.offset = es.length := by omega
    have hv : ∀ e ∈ es, Scalar.u8.Holds e := fun e he => (elementFits_scalar hr ht).mp (hf.2 e he)
    rw [codec_scalar hr ht, hone, writeEach_u8 es hv (by omega), writeStatement, ha, hs]
    simp only [Code.WriteStatement.run]
    rw [hlen, if_pos ⟨hl, rfl⟩]
  · exact write_each ha hs _ b offset es

theorem stop_of_one (hc : f.count = none) (offset : Nat) : offset + f.stop = offset + f.offset + f.elementSize := by
  rw [stop, size, hc, Option.getD_none, Nat.mul_one, Nat.add_assoc]

theorem stop_of_many (hc : f.count = some n) (offset : Nat) :
    offset + f.stop = offset + f.offset + f.elementSize * n := by
  rw [stop_of_count hc, Nat.add_assoc]

variable (records) in
theorem Sized.guise_one (h : f.Sized) (hc : f.count = none) (offset last : Nat) :
    Guise FieldValue.one last (fun b e => (f.codec records).read b (offset + f.offset) e)
      (fun e b => (f.codec records).write e b (offset + f.offset)) (f.ElementFits valid)
      (fun b v => f.readStatement.run (f.codec records) b offset v)
      (fun v b => f.writeStatement.run (f.codec records) offset v b) (f.Fits valid) :=
  ⟨fun _ => Fits.one_iff hc, fun b w _ _ => h.read_one hc b offset w, fun v b _ _ => write_one hc b offset v⟩

theorem Sized.guise_many (h : f.Sized) (hc : f.count = some n) (offset : Nat) :
    Guise FieldValue.many (offset + f.stop)
      (fun b es => (f.codec records).readEach b f.elementSize (offset + f.offset) es)
      (fun es b => (f.codec records).writeEach f.elementSize (offset + f.offset) es b)
      (Codec.Row (f.ElementFits valid) n)
      (fun b v => f.readStatement.run (f.codec records) b offset v)
      (fun v b => f.writeStatement.run (f.codec records) offset v b) (f.Fits valid) := by
  refine ⟨fun v => Fits.many_iff hc, ?_, ?_⟩
  · rintro b ws ⟨rfl, -⟩ hb
    exact h.read_many hc hb
  · rintro vs b ⟨rfl, hv⟩ hb
    exact h.write_many ⟨hc, hv⟩ hb

/-- The two statements of a field store its values between its offset and its end. -/
theorem Sized.slot (h : f.Sized)
    (hrec : f.isRecord = true → (records f.targetType).Lawful f.elementSize (valid f.targetType))
    (offset : Nat) :
    Slot (fun b v => f.readStatement.run (f.codec records) b offset v)
      (fun v b => f.writeStatement.run (f.codec records) offset v b)
      (offset + f.offset) (offset + f.stop) (f.Fits valid) := by
  have hl := h.lawful_codec hrec
  cases hc : f.count with
  | none =>
    have hslot := hl (offset + f.offset)
    rw [← stop_of_one hc] at hslot
    exact hslot.map (h.guise_one records hc offset _)
  | some n =>
    have hslot := hl.each n (offset + f.offset)
    rw [← stop_of_many hc] at hslot
    exact hslot.map (h.guise_many hc offset)

theorem Sized.covers (h : f.Sized)
    (hrec : f.isRecord = true → (records f.targetType).Lawful f.elementSize (valid f.targetType))
    (hfull : f.isRecord = true → (records f.targetType).Full f.elementSize (valid f.targetType))
    (offset : Nat) :
    Covers (fun v b => f.writeStatement.run (f.codec records) offset v b) (offset + f.offset) (offset + f.stop)
      (f.Fits valid) := by
  have hf := h.full_codec hfull
  cases hc : f.count with
  | none =>
    have hcov := hf (offset + f.offset)
    rw [← stop_of_one hc] at hcov
    exact hcov.map (h.guise_one records hc offset _)
  | some n =>
    have hcov := hf.each (h.lawful_codec hrec) n (offset + f.offset)
    rw [← stop_of_many hc] at hcov
    exact hcov.map (h.guise_many hc offset)

end Field

namespace RecordDef

/-- The values of a record: one for each field. -/
def Fits (valid : String → ρ → Prop) (d : RecordDef) (vs : RecordValue ρ) : Prop :=
  List.Forall₂ (Field.Fits valid) d.fields vs

variable (records valid)

theorem guise_fields_nil (offset last : Nat) :
    Guise id last (fun _ vs => .ok vs) (fun _ b => .ok b) (fun vs : RecordValue ρ => vs = [])
      (fun b vs => readFields records b offset [] vs) (fun vs b => writeFields records offset [] vs b)
      (List.Forall₂ (Field.Fits valid) []) := by
  refine .same (fun vs => List.forall₂_nil_left_iff) ?_ ?_
  · rintro b _ rfl -
    rfl
  · rintro _ b rfl -
    rfl

theorem guise_fields_cons (f : Field) (fs : List Field) (offset last : Nat) :
    Guise id last
      (readCons (fun b v => f.readStatement.run (f.codec records) b offset v)
        fun b vs => readFields records b offset fs vs)
      (writeCons (fun v b => f.writeStatement.run (f.codec records) offset v b)
        fun vs b => writeFields records offset fs vs b)
      (ValidCons (f.Fits valid) (List.Forall₂ (Field.Fits valid) fs))
      (fun b vs => readFields records b offset (f :: fs) vs)
      (fun vs b => writeFields records offset (f :: fs) vs b) (List.Forall₂ (Field.Fits valid) (f :: fs)) := by
  refine .same ?_ ?_ ?_
  · rintro (_ | ⟨v, vs⟩)
    · simp [ValidCons]
    · rw [List.forall₂_cons]
      rfl
  · rintro b (_ | ⟨w, ws⟩) hw -
    · exact hw.elim
    · rw [readFields, readCons]
      cases f.readStatement.run (f.codec records) b offset w <;> rfl
  · rintro (_ | ⟨v, vs⟩) b hv -
    · exact hv.elim
    · rfl

variable {records valid} {fields : List Field} {start : Nat}

theorem stop_fields (f : Field) (fs : List Field) :
    f.offset + Field.totalSize (f :: fs) = f.stop + Field.totalSize fs := by
  rw [Field.totalSize_cons, Field.stop, Nat.add_assoc]

theorem slot_fields (hc : Contiguous start fields) (hs : ∀ f ∈ fields, f.Sized)
    (hrec : ∀ f ∈ fields, f.isRecord = true →
      (records f.targetType).Lawful f.elementSize (valid f.targetType)) (offset : Nat) :
    Slot (fun b vs => readFields records b offset fields vs)
      (fun vs b => writeFields records offset fields vs b)
      (offset + start) (offset + (start + Field.totalSize fields))
      (List.Forall₂ (Field.Fits valid) fields) := by
  induction fields generalizing start with
  | nil => exact (Slot.nil (offset + start)).map (guise_fields_nil records valid offset _)
  | cons f fs ih =>
    obtain ⟨rfl, hc⟩ := hc
    rw [List.forall_mem_cons] at hs hrec
    have hf := hs.1.slot hrec.1 offset
    have hfs := ih hc hs.2 hrec.2
    rw [stop_fields]
    exact (hf.cons hfs (by simp [Field.stop]) (by omega)).map (guise_fields_cons records valid f fs offset _)

theorem covers_fields (hc : Contiguous start fields) (hs : ∀ f ∈ fields, f.Sized)
    (hrec : ∀ f ∈ fields, f.isRecord = true →
      (records f.targetType).Lawful f.elementSize (valid f.targetType))
    (hfull : ∀ f ∈ fields, f.isRecord = true →
      (records f.targetType).Full f.elementSize (valid f.targetType)) (offset : Nat) :
    Covers (fun vs b => writeFields records offset fields vs b) (offset + start)
      (offset + (start + Field.totalSize fields)) (List.Forall₂ (Field.Fits valid) fields) := by
  induction fields generalizing start with
  | nil => exact (Covers.nil (offset + start)).map (guise_fields_nil records valid offset _)
  | cons f fs ih =>
    obtain ⟨rfl, hc⟩ := hc
    rw [List.forall_mem_cons] at hs hrec hfull
    have hf := hs.1.slot hrec.1 offset
    have hfs := slot_fields hc hs.2 hrec.2 offset
    rw [stop_fields]
    exact (Covers.cons hf.toStore hfs.toStore (hs.1.covers hrec.1 hfull.1 offset) (ih hc hs.2 hrec.2 hfull.2)
      (by omega)).map (guise_fields_cons records valid f fs offset _)

theorem lawful_codec {d : RecordDef} (h : LaidOut d.fields)
    (hrec : ∀ f ∈ d.fields, f.isRecord = true →
      (records f.targetType).Lawful f.elementSize (valid f.targetType)) :
    (d.codec records).Lawful d.size (d.Fits valid) := by
  intro offset
  have hs := slot_fields h.contiguous h.sized hrec offset
  rwa [Nat.add_zero, Nat.zero_add] at hs

theorem full_codec {d : RecordDef} (h : LaidOut d.fields)
    (hrec : ∀ f ∈ d.fields, f.isRecord = true →
      (records f.targetType).Lawful f.elementSize (valid f.targetType))
    (hfull : ∀ f ∈ d.fields, f.isRecord = true →
      (records f.targetType).Full f.elementSize (valid f.targetType)) :
    (d.codec records).Full d.size (d.Fits valid) := by
  intro offset
  have hs := covers_fields h.contiguous h.sized hrec hfull offset
  rwa [Nat.add_zero, Nat.zero_add] at hs

end RecordDef

end RecordLayout
