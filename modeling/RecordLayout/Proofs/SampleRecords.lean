import RecordLayout.Binary.Samples
import RecordLayout.Proofs.RecordCode
import Mathlib.Data.Set.List

/-!
# Decoding and encoding records

A lawful codec that fills its bytes, and whose initial value is one of its values, decodes what it encodes
and encodes what it decodes, at every offset of a buffer (`Lawful.faithful`). The record code of a laid-out
definition is such a codec, so that the values of the sample records and the byte strings of their size stand for
each other.
-/

namespace RecordLayout

namespace Codec

variable {α β : Type} {c : Codec α} {size : Nat} {Valid : α → Prop} {view : β → α}

/-- Values of a type, seen as `view` shows them, are kept in `size` bytes. -/
structure Faithful (c : Codec α) (size : Nat) (view : β → α) : Prop where
  injective : Function.Injective view
  /-- Writing keeps all other bytes, and what it leaves is decoded to the value. -/
  decode_write : ∀ (r : β) (buffer : Bytes) (offset : Nat), offset + size ≤ buffer.length →
    ∃ buffer', c.write (view r) buffer offset = .ok buffer' ∧ buffer'.length = buffer.length ∧
      (∀ i, i < offset ∨ offset + size ≤ i → buffer'[i]? = buffer[i]?) ∧
      c.decode buffer' offset = .ok (view r)
  /-- Every buffer holds a value. Reading gives it over any other value, and takes `size` bytes;
  writing it back changes nothing. -/
  write_decode : ∀ (buffer : Bytes) (offset : Nat), offset + size ≤ buffer.length →
    ∃ r : β, c.decode buffer offset = .ok (view r) ∧
      (∀ earlier : β, c.consume buffer offset (view earlier) = .ok (view r, size)) ∧
      c.write (view r) buffer offset = .ok buffer
  decode_encode : ∀ r : β, ∃ b, c.encode (view r) = .ok b ∧ b.length = size ∧
    c.decode b 0 = .ok (view r)
  encode_decode : ∀ b : Bytes, b.length = size →
    ∃ r : β, c.decode b 0 = .ok (view r) ∧ c.encode (view r) = .ok b

namespace Lawful

theorem read_eq_decode (h : c.Lawful size Valid) (hi : Valid c.initial) {w : α} {b : Bytes} {offset : Nat}
    (hw : Valid w) (hl : offset + size ≤ b.length) : c.read b offset w = c.decode b offset := by
  obtain ⟨v, hr, hv⟩ := (h offset).read_ok hi hl
  have hb := (h offset).write_read hi hl hr
  rw [decode, hr]
  exact (h offset).read_write hv hw hl hb

theorem exists_encode (h : c.Lawful c.size Valid) {v : α} (hv : Valid v) :
    ∃ b, c.encode v = .ok b ∧ b.length = c.size := by
  have hl : 0 + c.size ≤ (List.replicate c.size (0 : UInt8)).length := by simp
  obtain ⟨b, hb, ho⟩ := (h 0).write_ok hv hl
  exact ⟨b, hb, by rw [ho.length_eq, List.length_replicate]⟩

/-- The bytes of a value by itself are the bytes that it has in a buffer of its size. -/
theorem encode_of_write (h : c.Lawful c.size Valid) (hf : c.Full c.size Valid) {v : α} {b : Bytes} (hv : Valid v)
    (hb : b.length = c.size) (hw : c.write v b 0 = .ok b) : c.encode v = .ok b := by
  have hz : 0 + c.size ≤ (List.replicate c.size (0 : UInt8)).length := by simp
  obtain ⟨b', hb', ho⟩ := (h 0).write_ok hv hz
  have hin : SameInside 0 (0 + c.size) b b' := hf 0 v _ _ _ _ hv (by omega) hz hw hb'
  have hout : SameOutside 0 (0 + c.size) b b' := by
    have hlen : b'.length = b.length := by rw [ho.length_eq, hb, List.length_replicate]
    refine ⟨hlen, fun i hi => ?_⟩
    rw [List.getElem?_eq_none (by omega), List.getElem?_eq_none (by omega)]
  rw [hout.eq_of_inside hin] at hb'
  exact hb'

/-- A lawful codec keeps its values, if the initial one is among them. -/
theorem faithful (h : c.Lawful c.size Valid) (hf : c.Full c.size Valid) (hv : ∀ v, Valid v ↔ ∃ r, view r = v)
    (hi : Valid c.initial) (hinj : Function.Injective view) : c.Faithful c.size view := by
  have hview : ∀ r, Valid (view r) := fun r => (hv _).mpr ⟨r, rfl⟩
  -- the value that a buffer holds
  have hread : ∀ (b : Bytes) (offset : Nat), offset + c.size ≤ b.length →
      ∃ r, c.decode b offset = .ok (view r) ∧ c.write (view r) b offset = .ok b := by
    intro b offset hl
    obtain ⟨v, hr, hvalid⟩ := (h offset).read_ok hi hl
    obtain ⟨r, rfl⟩ := (hv v).mp hvalid
    exact ⟨r, hr, (h offset).write_read hi hl hr⟩
  refine ⟨hinj, ?_, ?_, ?_, ?_⟩
  · intro r b offset hl
    obtain ⟨b', hb', ho⟩ := (h offset).write_ok (hview r) hl
    exact ⟨b', hb', ho.length_eq, ho.getElem?_eq, (h offset).read_write (hview r) hi hl hb'⟩
  · intro b offset hl
    obtain ⟨r, hr, hw⟩ := hread b offset hl
    refine ⟨r, hr, fun earlier => ?_, hw⟩
    rw [consume, h.read_eq_decode hi (hview earlier) hl, hr]
  · intro r
    obtain ⟨b, hb, hlen⟩ := h.exists_encode (hview r)
    exact ⟨b, hb, hlen, (h 0).read_write (hview r) hi (by simp) hb⟩
  · intro b hb
    obtain ⟨r, hr, hw⟩ := hread b 0 (by omega)
    exact ⟨r, hr, h.encode_of_write hf (hview r) hb hw⟩

end Lawful

end Codec

/-! ### The initial value of a record -/

theorem Scalar.inRange_zero (t : Scalar) : t.InRange 0 := by
  cases t <;> decide

variable {ρ : Type} {records : String → Codec ρ} {valid : String → ρ → Prop}

namespace Field

variable {f : Field}

theorem Sized.elementFits_initial (h : f.Sized)
    (hrec : f.isRecord = true → valid f.targetType (records f.targetType).initial) :
    f.ElementFits valid (f.codec records).initial := by
  cases hr : f.isRecord with
  | true =>
    rw [codec_record hr, ElementFits, if_pos hr]
    exact ⟨_, hrec hr, rfl⟩
  | false =>
    obtain ⟨t, ht, -, -⟩ := h.exists_scalar hr
    rw [codec_scalar hr ht, elementFits_scalar hr ht]
    exact ⟨0, t.inRange_zero, rfl⟩

theorem Sized.fits_initial (h : f.Sized)
    (hrec : f.isRecord = true → valid f.targetType (records f.targetType).initial) :
    f.Fits valid (f.initial records) := by
  have he := h.elementFits_initial hrec
  unfold initial
  cases hc : f.count with
  | none => exact ⟨hc, he⟩
  | some n =>
    refine ⟨by rw [List.length_replicate, hc], fun e hmem => ?_⟩
    rw [List.eq_of_mem_replicate hmem]
    exact he

end Field

theorem RecordDef.fits_initial {d : RecordDef} (h : LaidOut d.fields)
    (hrec : ∀ f ∈ d.fields, f.isRecord = true → valid f.targetType (records f.targetType).initial) :
    d.Fits valid (d.codec records).initial := by
  show List.Forall₂ _ d.fields (d.fields.map _)
  rw [List.forall₂_map_right_iff, List.forall₂_same]
  intro f hf
  exact (h.sized f hf).fits_initial (hrec f hf)

/-! ### Values by their types -/

/-- The values of a scalar type. -/
abbrev Scalar.Value (t : Scalar) : Type := { n : Int // t.InRange n }

/-- A number as an element. -/
def Scalar.Value.element {t : Scalar} (x : t.Value) : Element ρ := .number x.1

theorem Scalar.Value.element_injective {t : Scalar} :
    Function.Injective (element : t.Value → Element ρ) := by
  intro x y h
  exact Subtype.ext (Element.number.inj h)

namespace Field

variable {β : Type} {f : Field} {v : FieldValue ρ} {n : Nat}

theorem elementFits_iff_value {t : Scalar} (hr : f.isRecord = false)
    (ht : Scalar.ofName? f.targetType = some t) (e : Element ρ) :
    f.ElementFits valid e ↔ ∃ x : t.Value, x.element = e := by
  rw [elementFits_scalar hr ht]
  constructor
  · rintro ⟨n, hn, rfl⟩
    exact ⟨⟨n, hn⟩, rfl⟩
  · rintro ⟨x, rfl⟩
    exact ⟨x.1, x.2, rfl⟩

theorem elementFits_iff_record {view : β → ρ} (hr : f.isRecord = true)
    (hv : ∀ r, valid f.targetType r ↔ ∃ x, view x = r) (e : Element ρ) :
    f.ElementFits valid e ↔ ∃ x, .record (view x) = e := by
  rw [ElementFits, if_pos hr]
  constructor
  · rintro ⟨r, hr, rfl⟩
    obtain ⟨x, rfl⟩ := (hv r).mp hr
    exact ⟨x, rfl⟩
  · rintro ⟨x, rfl⟩
    exact ⟨_, (hv _).mpr ⟨x, rfl⟩, rfl⟩

variable {element : β → Element ρ}

theorem fits_iff_one (hc : f.count = none) (he : ∀ e, f.ElementFits valid e ↔ ∃ x, element x = e) :
    f.Fits valid v ↔ ∃ x, .one (element x) = v := by
  rw [Fits.one_iff hc]
  constructor
  · rintro ⟨e, hfits, rfl⟩
    obtain ⟨x, rfl⟩ := (he e).mp hfits
    exact ⟨x, rfl⟩
  · rintro ⟨x, rfl⟩
    exact ⟨_, (he _).mpr ⟨x, rfl⟩, rfl⟩

theorem fits_iff_many (hc : f.count = some n) (he : ∀ e, f.ElementFits valid e ↔ ∃ x, element x = e) :
    f.Fits valid v ↔ ∃ xs : Vector β n, .many (xs.toList.map element) = v := by
  rw [Fits.many_iff hc]
  constructor
  · rintro ⟨es, ⟨hlen, hfits⟩, rfl⟩
    have hrange : es ∈ Set.range (List.map element) := by
      rw [Set.range_list_map]
      exact fun e hmem => (he e).mp (hfits e hmem)
    obtain ⟨xs, rfl⟩ := hrange
    exact ⟨⟨xs.toArray, by simpa using hlen⟩, rfl⟩
  · rintro ⟨xs, rfl⟩
    refine ⟨_, ⟨by simp, fun e hmem => ?_⟩, rfl⟩
    obtain ⟨x, -, rfl⟩ := List.mem_map.mp hmem
    exact (he _).mpr ⟨x, rfl⟩

end Field

namespace Samples

/-- The values of `inner`. -/
structure Inner where
  kind : Scalar.u16.Value
  delta : Scalar.i16.Value

/-- The values of `sample`. -/
structure Sample where
  id : Scalar.u32.Value
  flags : Vector Scalar.u8.Value 4

/-- The values of `outer`. -/
structure Outer where
  magic : Scalar.i32.Value
  first : Inner
  rest : Vector Inner 2
  tag : Scalar.u8.Value
  words : Vector Scalar.u32.Value 2

def Inner.value (r : Inner) : Flat := [.one r.kind.element, .one r.delta.element]

def Inner.element (r : Inner) : Element Flat := .record r.value

def Sample.value (r : Sample) : Flat := [.one r.id.element, .many (r.flags.toList.map (·.element))]

def Outer.value (r : Outer) : Nested :=
  [.one r.magic.element, .one r.first.element, .many (r.rest.toList.map (·.element)),
    .one r.tag.element, .many (r.words.toList.map (·.element))]

theorem Inner.value_injective : Function.Injective Inner.value := by
  rintro ⟨k, d⟩ ⟨k', d'⟩ h
  simp only [value, List.cons.injEq, FieldValue.one.injEq, and_true] at h
  rw [Scalar.Value.element_injective h.1, Scalar.Value.element_injective h.2]

theorem Inner.element_injective : Function.Injective Inner.element := by
  intro r r' h
  exact value_injective (Element.record.inj h)

theorem Sample.value_injective : Function.Injective Sample.value := by
  rintro ⟨i, fs⟩ ⟨i', fs'⟩ h
  simp only [value, List.cons.injEq, FieldValue.one.injEq, FieldValue.many.injEq, and_true] at h
  have hflags := Scalar.Value.element_injective.list_map h.2
  rw [Scalar.Value.element_injective h.1, Vector.toList_inj.mp hflags]

theorem Outer.value_injective : Function.Injective Outer.value := by
  rintro ⟨m, f, r, t, w⟩ ⟨m', f', r', t', w'⟩ h
  simp only [value, List.cons.injEq, FieldValue.one.injEq, FieldValue.many.injEq, and_true] at h
  obtain ⟨hm, hf, hr, ht, hw⟩ := h
  have hrest := Inner.element_injective.list_map hr
  have hwords := Scalar.Value.element_injective.list_map hw
  rw [Scalar.Value.element_injective hm, Inner.element_injective hf, Vector.toList_inj.mp hrest,
    Scalar.Value.element_injective ht, Vector.toList_inj.mp hwords]

/-! ### The sample records -/

/-- No record is inside a flat one. -/
def noRecord (_ : String) (_ : Unit) : Prop := False

theorem fits_inner_iff (v : Flat) : inner.Fits noRecord v ↔ ∃ r : Inner, r.value = v := by
  have hkind : ∀ v, inner.fields[0].Fits noRecord v ↔ ∃ x : Scalar.u16.Value, .one x.element = v :=
    fun _ => Field.fits_iff_one rfl (Field.elementFits_iff_value rfl rfl)
  have hdelta : ∀ v, inner.fields[1].Fits noRecord v ↔ ∃ x : Scalar.i16.Value, .one x.element = v :=
    fun _ => Field.fits_iff_one rfl (Field.elementFits_iff_value rfl rfl)
  constructor
  · rintro (_ | ⟨h₁, _ | ⟨h₂, _ | _⟩⟩)
    obtain ⟨k, rfl⟩ := (hkind _).mp h₁
    obtain ⟨d, rfl⟩ := (hdelta _).mp h₂
    exact ⟨⟨k, d⟩, rfl⟩
  · rintro ⟨r, rfl⟩
    exact .cons ((hkind _).mpr ⟨r.kind, rfl⟩) (.cons ((hdelta _).mpr ⟨r.delta, rfl⟩) .nil)

theorem fits_sample_iff (v : Flat) : sample.Fits noRecord v ↔ ∃ r : Sample, r.value = v := by
  have hid : ∀ v, sample.fields[0].Fits noRecord v ↔ ∃ x : Scalar.u32.Value, .one x.element = v :=
    fun _ => Field.fits_iff_one rfl (Field.elementFits_iff_value rfl rfl)
  have hflags : ∀ v, sample.fields[1].Fits noRecord v ↔
      ∃ xs : Vector Scalar.u8.Value 4, .many (xs.toList.map (·.element)) = v :=
    fun _ => Field.fits_iff_many rfl (Field.elementFits_iff_value rfl rfl)
  constructor
  · rintro (_ | ⟨h₁, _ | ⟨h₂, _ | _⟩⟩)
    obtain ⟨i, rfl⟩ := (hid _).mp h₁
    obtain ⟨fs, rfl⟩ := (hflags _).mp h₂
    exact ⟨⟨i, fs⟩, rfl⟩
  · rintro ⟨r, rfl⟩
    exact .cons ((hid _).mpr ⟨r.id, rfl⟩) (.cons ((hflags _).mpr ⟨r.flags, rfl⟩) .nil)

/-- The records inside `outer` are values of `inner`. -/
def innerRecord (_ : String) (v : Flat) : Prop := inner.Fits noRecord v

theorem fits_outer_iff (v : Nested) : outer.Fits innerRecord v ↔ ∃ r : Outer, r.value = v := by
  have hmagic : ∀ v, outer.fields[0].Fits innerRecord v ↔ ∃ x : Scalar.i32.Value, .one x.element = v :=
    fun _ => Field.fits_iff_one rfl (Field.elementFits_iff_value rfl rfl)
  have hfirst : ∀ v, outer.fields[1].Fits innerRecord v ↔ ∃ x : Inner, .one x.element = v :=
    fun _ => Field.fits_iff_one rfl (Field.elementFits_iff_record rfl fits_inner_iff)
  have hrest : ∀ v, outer.fields[2].Fits innerRecord v ↔
      ∃ xs : Vector Inner 2, .many (xs.toList.map (·.element)) = v :=
    fun _ => Field.fits_iff_many rfl (Field.elementFits_iff_record rfl fits_inner_iff)
  have htag : ∀ v, outer.fields[3].Fits innerRecord v ↔ ∃ x : Scalar.u8.Value, .one x.element = v :=
    fun _ => Field.fits_iff_one rfl (Field.elementFits_iff_value rfl rfl)
  have hwords : ∀ v, outer.fields[4].Fits innerRecord v ↔
      ∃ xs : Vector Scalar.u32.Value 2, .many (xs.toList.map (·.element)) = v :=
    fun _ => Field.fits_iff_many rfl (Field.elementFits_iff_value rfl rfl)
  constructor
  · rintro (_ | ⟨h₁, _ | ⟨h₂, _ | ⟨h₃, _ | ⟨h₄, _ | ⟨h₅, _ | _⟩⟩⟩⟩⟩)
    obtain ⟨m, rfl⟩ := (hmagic _).mp h₁
    obtain ⟨f, rfl⟩ := (hfirst _).mp h₂
    obtain ⟨r, rfl⟩ := (hrest _).mp h₃
    obtain ⟨t, rfl⟩ := (htag _).mp h₄
    obtain ⟨w, rfl⟩ := (hwords _).mp h₅
    exact ⟨⟨m, f, r, t, w⟩, rfl⟩
  · rintro ⟨r, rfl⟩
    exact .cons ((hmagic _).mpr ⟨r.magic, rfl⟩) (.cons ((hfirst _).mpr ⟨r.first, rfl⟩)
      (.cons ((hrest _).mpr ⟨r.rest, rfl⟩) (.cons ((htag _).mpr ⟨r.tag, rfl⟩)
        (.cons ((hwords _).mpr ⟨r.words, rfl⟩) .nil))))

/-- A conversion that knows the size of `inner`. -/
def conversion : Conversion (String → Option Answer) := ⟨"", .ofEntries [("Inner", 4)], fun _ => none⟩

theorem read_inner : ((Conversion.readFrom (.ofString
    "struct Inner\nUInt16 kind; record kind\nSInt16 delta;\n\x7d;")).run conversion).result = .ok inner := by
  decide +kernel

theorem read_sample : ((Conversion.readFrom (.ofString
    "struct Sample\nUInt32 id; an identifier\nUInt8 flags[4]; four flag bytes\n\x7d;")).run
      conversion).result = .ok sample := by
  decide +kernel

theorem read_outer : ((Conversion.readFrom (.ofString ("struct Outer\nbe32 magic; magic number\n" ++
    "Inner first; leading record\nInner rest[2]; trailing records\nChar tag;\n" ++
    "UInt32 words[2]; two big-endian words\n\x7d;"))).run conversion).result = .ok outer := by
  decide +kernel

theorem lawful_inner : innerCodec.Lawful innerCodec.size (inner.Fits noRecord) :=
  RecordDef.lawful_codec (Conversion.laidOut_of_readFrom read_inner) (by simp [inner])

theorem lawful_sample : sampleCodec.Lawful sampleCodec.size (sample.Fits noRecord) :=
  RecordDef.lawful_codec (Conversion.laidOut_of_readFrom read_sample) (by simp [sample])

theorem lawful_outer : outerCodec.Lawful outerCodec.size (outer.Fits innerRecord) := by
  refine RecordDef.lawful_codec (Conversion.laidOut_of_readFrom read_outer) ?_
  simp only [outer, List.forall_mem_cons]
  exact ⟨nofun, fun _ => lawful_inner, fun _ => lawful_inner, nofun, nofun, by simp⟩

theorem full_inner : innerCodec.Full innerCodec.size (inner.Fits noRecord) :=
  RecordDef.full_codec (Conversion.laidOut_of_readFrom read_inner) (by simp [inner]) (by simp [inner])

theorem full_sample : sampleCodec.Full sampleCodec.size (sample.Fits noRecord) :=
  RecordDef.full_codec (Conversion.laidOut_of_readFrom read_sample) (by simp [sample]) (by simp [sample])

theorem full_outer : outerCodec.Full outerCodec.size (outer.Fits innerRecord) := by
  refine RecordDef.full_codec (Conversion.laidOut_of_readFrom read_outer) ?_ ?_
  · simp only [outer, List.forall_mem_cons]
    exact ⟨nofun, fun _ => lawful_inner, fun _ => lawful_inner, nofun, nofun, by simp⟩
  · simp only [outer, List.forall_mem_cons]
    exact ⟨nofun, fun _ => full_inner, fun _ => full_inner, nofun, nofun, by simp⟩

theorem fits_initial_inner : inner.Fits noRecord innerCodec.initial :=
  RecordDef.fits_initial (Conversion.laidOut_of_readFrom read_inner) (by simp [inner])

theorem fits_initial_sample : sample.Fits noRecord sampleCodec.initial :=
  RecordDef.fits_initial (Conversion.laidOut_of_readFrom read_sample) (by simp [sample])

theorem fits_initial_outer : outer.Fits innerRecord outerCodec.initial :=
  RecordDef.fits_initial (Conversion.laidOut_of_readFrom read_outer) fun _ _ _ => fits_initial_inner

/-- The sample records decode what they encode and encode what they decode, for all their values and at
every offset of every buffer that has room for them. -/
theorem samples_faithful : innerCodec.Faithful 4 Inner.value ∧ sampleCodec.Faithful 8 Sample.value ∧
    outerCodec.Faithful 25 Outer.value :=
  ⟨lawful_inner.faithful full_inner fits_inner_iff fits_initial_inner Inner.value_injective,
    lawful_sample.faithful full_sample fits_sample_iff fits_initial_sample Sample.value_injective,
    lawful_outer.faithful full_outer fits_outer_iff fits_initial_outer Outer.value_injective⟩

end Samples

end RecordLayout
