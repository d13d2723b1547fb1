import RecordLayout.Proofs.Accesses
import RecordLayout.Proofs.SampleRecords

/-!
# Record code on short buffers

The record code of a definition is a list of accesses: one for each scalar, for each array of bytes, and for each
access of a record inside (`RecordDef.runs_codec`). The sample records have theirs spelled out on their own types, and
since each of them ends where the next one starts, a buffer that is too short leaves the accesses that fit done and the
others undone (`Codec.Runs.stopsCleanly`).
-/

namespace RecordLayout

variable {ρ : Type}

/-! ### The accesses of record code -/

namespace Part

def record : Part (Element ρ) ρ where
  get?
    | .record r => some r
    | .number _ => none
  put
    | .record _, r => .record r
    | .number n, _ => .number n
  get?_put := by rintro (_ | _) _ _ h <;> simp at h ⊢
  put_put := by rintro (_ | _) _ _ <;> rfl
  put_get := by rintro (_ | _) _ h <;> simp at h ⊢; exact h.symm

def one : Part (FieldValue ρ) (Element ρ) where
  get?
    | .one e => some e
    | .many _ => none
  put
    | .one _, e => .one e
    | .many es, _ => .many es
  get?_put := by rintro (_ | _) _ _ h <;> simp at h ⊢
  put_put := by rintro (_ | _) _ _ <;> rfl
  put_get := by rintro (_ | _) _ h <;> simp at h ⊢; exact h.symm

def many : Part (FieldValue ρ) (List (Element ρ)) where
  get?
    | .many es => some es
    | .one _ => none
  put
    | .many _, es => .many es
    | .one e, _ => .one e
  get?_put := by rintro (_ | _) _ _ h <;> simp at h ⊢
  put_put := by rintro (_ | _) _ _ <;> rfl
  put_get := by rintro (_ | _) _ h <;> simp at h ⊢; exact h.symm

end Part

open Access

def Scalar.elementAccess (t : Scalar) : Access (Element ρ) where
  first := 0
  last := t.width
  load bytes _ := .number (t.decode bytes)
  store
    | .number n => t.encode n
    | .record _ => []

theorem Scalar.runs_codec (t : Scalar) : (t.codec (ρ := ρ)).Runs [t.elementAccess] t.Holds := by
  intro offset
  constructor
  · intro b w _
    by_cases hl : offset + t.width ≤ b.length
    · simp [codec, read?, readAll, loadFrom, elementAccess, hl]
    · simp [codec, read?, readAll, elementAccess, hl]
  · rintro _ b ⟨n, -, rfl⟩
    simp only [codec, write, writeAll, storeInto, elementAccess, Nat.add_zero]
    rfl

/-- An array of bytes is copied in one access. -/
def bytesAccess (first last : Nat) : Access (FieldValue ρ) where
  first := first
  last := last
  load
    | bytes, .many _ => .many (Code.byteElements bytes)
    | _, .one e => .one e
  store
    | .many es => es.map Code.elementByte
    | .one _ => []

namespace Field

/-- The accesses to one element; `nested` gives those of the record types. -/
def elementAccesses (nested : String → List (Access ρ)) (f : Field) : List (Access (Element ρ)) :=
  if f.isRecord then (nested f.targetType).map (inside .record)
  else [((Scalar.ofName? f.targetType).getD .u8).elementAccess]

def accesses (nested : String → List (Access ρ)) (f : Field) : List (Access (FieldValue ρ)) :=
  match f.count with
  | none => ((f.elementAccesses nested).map (shift f.offset)).map (inside .one)
  | some n =>
    if f.storage = .byte then [bytesAccess f.offset f.stop]
    else (each (f.elementAccesses nested) f.elementSize f.offset n).map (inside .many)

variable {f : Field} {records : String → Codec ρ} {nested : String → List (Access ρ)} {valid : String → ρ → Prop}

theorem Sized.runs_codec (h : f.Sized)
    (hrec : f.isRecord = true → (records f.targetType).Runs (nested f.targetType) (valid f.targetType)) :
    (f.codec records).Runs (f.elementAccesses nested) (f.ElementFits valid) := by
  cases hr : f.isRecord with
  | true =>
    intro offset
    rw [codec_record hr, elementAccesses, if_pos hr]
    refine (hrec hr offset).map .record .record (fun e he => ?_) (fun _ => rfl) (fun _ _ => rfl) (fun _ _ _ => rfl)
      (fun _ _ _ => rfl)
    rwa [ElementFits, if_pos hr] at he
  | false =>
    obtain ⟨t, ht, -, -⟩ := h.exists_scalar hr
    have hfits : f.ElementFits (ρ := ρ) valid = t.Holds := by
      funext e
      exact propext (elementFits_scalar hr ht)
    rw [codec_scalar hr ht, hfits, elementAccesses, hr, ht]
    exact t.runs_codec

theorem Sized.runs_bytes (h : f.Sized) {n : Nat} (hc : f.count = some n) (hs : f.storage = .byte) (offset : Nat) :
    Runs offset (fun b v => f.readStatement.run (f.codec records) b offset v)
      (fun v b => f.writeStatement.run (f.codec records) offset v b) [bytesAccess f.offset f.stop] (f.Fits valid) := by
  have ha := isArray_of_count hc
  have hstop := h.stop_bytes hs hc
  constructor
  · intro b w hw
    obtain ⟨es, ⟨rfl, -⟩, rfl⟩ := (Fits.many_iff hc).mp hw
    have hlen : es.length = f.stop - f.offset := by omega
    rw [readStatement, ha, hs]
    simp only [Code.ReadStatement.run, hlen, and_true]
    rfl
  · intro v b hv
    obtain ⟨es, ⟨rfl, -⟩, rfl⟩ := (Fits.many_iff hc).mp hv
    have hlen : es.length = f.stop - f.offset := by omega
    rw [writeStatement, ha, hs]
    simp only [Code.WriteStatement.run, hlen, and_true]
    rfl

theorem Sized.runs (h : f.Sized)
    (hrec : f.isRecord = true → (records f.targetType).Runs (nested f.targetType) (valid f.targetType))
    (offset : Nat) :
    Runs offset (fun b v => f.readStatement.run (f.codec records) b offset v)
      (fun v b => f.writeStatement.run (f.codec records) offset v b) (f.accesses nested) (f.Fits valid) := by
  have hrun := h.runs_codec hrec
  unfold accesses
  split
  · next hc =>
    refine (hrun.behind f.offset offset).map .one .one (fun v hv => (Fits.one_iff hc).mp hv) (fun _ => rfl)
      (fun _ _ => rfl) (fun b w _ => h.read_one hc b offset w) (fun v b _ => write_one hc b offset v)
  · next n hc =>
    split
    · next hs => exact h.runs_bytes hc hs offset
    · next hs =>
      have ha := isArray_of_count hc
      exact (hrun.each f.elementSize n f.offset offset).map .many .many (fun v hv => (Fits.many_iff hc).mp hv)
        (fun _ => rfl) (fun _ _ => rfl) (fun b es _ => read_each ha hs _ b offset es)
        (fun es b _ => write_each ha hs _ b offset es)

end Field

namespace RecordDef

def fieldAccesses (nested : String → List (Access ρ)) : List Field → List (Access (RecordValue ρ))
  | [] => []
  | f :: fs => (f.accesses nested).map (inside .head) ++ (fieldAccesses nested fs).map (inside .tail)

variable {records : String → Codec ρ} {nested : String → List (Access ρ)} {valid : String → ρ → Prop}

theorem runs_fields {fields : List Field} (hs : ∀ f ∈ fields, f.Sized)
    (hrec : ∀ f ∈ fields, f.isRecord = true →
      (records f.targetType).Runs (nested f.targetType) (valid f.targetType)) (offset : Nat) :
    Runs offset (fun b vs => readFields records b offset fields vs) (fun vs b => writeFields records offset fields vs b)
      (fieldAccesses nested fields) (List.Forall₂ (Field.Fits valid) fields) := by
  induction fields with
  | nil => exact ⟨fun _ => rfl, fun _ => rfl⟩
  | cons f fs ih =>
    rw [List.forall_mem_cons] at hs hrec
    have hc := (hs.1.runs hrec.1 offset).cons (ih hs.2 hrec.2)
    constructor
    · rintro b (_ | ⟨w, ws⟩) (_ | ⟨hw, hws⟩)
      refine Eq.trans ?_ (hc.read_eq (w := w :: ws) ⟨hw, hws⟩)
      rw [readFields, readCons]
      cases f.readStatement.run (f.codec records) b offset w <;> rfl
    · rintro (_ | ⟨v, vs⟩) b (_ | ⟨hv, hvs⟩)
      exact hc.write_eq (v := v :: vs) ⟨hv, hvs⟩

/-- Record code does the accesses of its fields, if that of the records inside does theirs. -/
theorem runs_codec {d : RecordDef} (h : LaidOut d.fields)
    (hrec : ∀ f ∈ d.fields, f.isRecord = true →
      (records f.targetType).Runs (nested f.targetType) (valid f.targetType)) :
    (d.codec records).Runs (fieldAccesses nested d.fields) (d.Fits valid) :=
  runs_fields h.sized hrec

end RecordDef

/-! ### Accesses to values of other types -/

variable {α β γ : Type}

/-- A part of a part. -/
def Part.comp (p : Part γ β) (q : Part β α) : Part γ α where
  get? x := (p.get? x).bind q.get?
  put x v :=
    match p.get? x with
    | some y => p.put x (q.put y v)
    | none => x
  get?_put := by
    intro x v w h
    obtain ⟨y, hy, hv⟩ := Option.bind_eq_some_iff.mp h
    simp only [hy, p.get?_put _ hy, Option.bind_some, q.get?_put w hv]
  put_put := by
    intro x v w
    rcases hy : p.get? x with _ | y
    · simp only [hy]
    · simp only [p.get?_put _ hy, p.put_put, q.put_put]
  put_get := by
    intro x v h
    obtain ⟨y, hy, hv⟩ := Option.bind_eq_some_iff.mp h
    simp only [hy, q.put_get hv, p.put_get hy]

namespace Access

/-- The accesses to a component, which starts at position `n`. -/
def within (n : Nat) (get : γ → β) (put : γ → β → γ) (as : List (Access β)) : List (Access γ) :=
  as.map fun a => ⟨n + a.first, n + a.last, fun bytes x => put x (a.load bytes (get x)), fun x => a.store (get x)⟩

/-- An access through `view` does what the other one does without it. -/
structure Shows (view : β → α) (a : Access β) (a' : Access α) : Prop where
  first_eq : a'.first = a.first
  last_eq : a'.last = a.last
  load_eq : ∀ bytes r, a.first + bytes.length = a.last → a'.load bytes (view r) = view (a.load bytes r)
  store_eq : ∀ r, a'.store (view r) = a.store r
  length_store : ∀ r, a.first + (a.store r).length = a.last

theorem inside_inside (p : Part γ β) (q : Part β α) (a : Access α) : (a.inside q).inside p = a.inside (p.comp q) := by
  simp only [inside, Part.comp, mk.injEq, true_and]
  constructor
  · funext bytes x
    rcases hx : p.get? x with _ | y
    · simp
    · rcases hy : q.get? y with _ | v
      · simp [hy, p.put_get hx]
      · simp [hy]
  · funext x
    rcases p.get? x with _ | y <;> simp

theorem map_inside_inside (p : Part γ β) (q : Part β α) (as : List (Access α)) :
    (as.map (inside q)).map (inside p) = as.map (inside (p.comp q)) := by
  rw [List.map_map]
  exact List.map_congr_left fun a _ => inside_inside p q a

theorem map_inside_shift (p : Part β α) (n : Nat) (as : List (Access α)) :
    (as.map (inside p)).map (shift n) = (as.map (shift n)).map (inside p) := by
  rw [List.map_map, List.map_map]
  rfl

variable {view : β → α} {as : List (Access β)} {as' : List (Access α)}

theorem shows_within {γ' : Type} {view' : γ → γ'} {get : γ → β} {put : γ → β → γ}
    (h : List.Forall₂ (Shows view) as as') (n : Nat) (p : Part γ' α)
    (hget : ∀ x, p.get? (view' x) = some (view (get x))) (hput : ∀ x y, p.put (view' x) (view y) = view' (put x y)) :
    List.Forall₂ (Shows view') (within n get put as) ((as'.map (shift n)).map (inside p)) := by
  rw [within, List.map_map, List.forall₂_map_left_iff, List.forall₂_map_right_iff]
  refine h.imp fun a a' ha => ?_
  constructor
  · simp [inside, shift, ha.first_eq]
  · simp [inside, shift, ha.last_eq]
  · intro bytes x hb
    have hload := ha.load_eq bytes (get x) (by dsimp only at hb; omega)
    simp only [inside, shift, Function.comp, hget, hload, hput]
  · intro x
    simp only [inside, shift, Function.comp, hget, ha.store_eq]
  · intro x
    simp only [Nat.add_assoc, ha.length_store]

theorem shows_append {bs : List (Access β)} {bs' : List (Access α)} (h : List.Forall₂ (Shows view) as as')
    (h' : List.Forall₂ (Shows view) bs bs') : List.Forall₂ (Shows view) (as ++ bs) (as' ++ bs') :=
  List.rel_append h h'

theorem readAll_view (h : List.Forall₂ (Shows view) as as') (b : Bytes) (offset : Nat) (r : β) :
    readAll b offset as' (view r) = (readAll b offset as r).map view := by
  induction h generalizing r with
  | nil => rfl
  | @cons a a' as as' ha _ ih =>
    simp only [readAll, ha.last_eq]
    split
    · next hl =>
      have hstore := ha.length_store r
      have hload : a'.loadFrom b offset (view r) = view (a.loadFrom b offset r) := by
        simp only [loadFrom, ha.first_eq, ha.last_eq]
        refine ha.load_eq _ r ?_
        rw [List.length_take, List.length_drop]
        omega
      rw [hload, ih]
    · rfl

theorem writeAll_view (h : List.Forall₂ (Shows view) as as') (r : β) (offset : Nat) (b : Bytes) :
    writeAll (view r) offset as' b = writeAll r offset as b := by
  induction h generalizing b with
  | nil => rfl
  | cons ha _ ih => simp only [writeAll, storeInto, ha.first_eq, ha.last_eq, ha.store_eq, ih]

end Access

theorem Adjoin.of_ends {start stop : Nat} {as : List (Access α)} {ends : List Nat} (hlast : as.map (·.last) = ends)
    (hfirst : as.map (·.first) = (start :: ends).dropLast) (hasc : (start :: ends).Pairwise (· ≤ ·))
    (hstop : (start :: ends).getLast? = some stop) : Adjoin start as stop := by
  subst hlast
  induction as generalizing start with
  | nil => exact Option.some.inj hstop
  | cons a as ih =>
    simp only [List.map_cons, List.dropLast_cons_cons, List.cons.injEq] at hfirst
    rw [List.map_cons, List.pairwise_cons] at hasc
    exact ⟨hfirst.1, hasc.1 _ List.mem_cons_self, ih hfirst.2 hasc.2 (by simpa using hstop)⟩

namespace Codec

/-- On every buffer the code does the accesses that fit and no others. It stops early exactly if there is no room for
the whole value. -/
structure StopsCleanly (c : Codec α) (view : β → α) (accesses : List (Access β)) (ends : List Nat) : Prop where
  last_eq : accesses.map (·.last) = ends
  first_eq : accesses.map (·.first) = (0 :: ends).dropLast
  ascending : ends.Pairwise (· < ·)
  getLast?_eq : ends.getLast? = some c.size
  /-- The fields of the accesses that fit are decoded, and the others are as they were. -/
  read_eq : ∀ (b : Bytes) (offset : Nat) (r : β), c.read b offset (view r) =
    Attempt.ended (offset + c.size ≤ b.length)
      (view ((accesses.filter fun a => offset + a.last ≤ b.length).foldl (loadFrom b offset) r))
  /-- The bytes of the accesses that fit are those of the encoded value, and the others are as they were. -/
  exists_write : ∀ (b : Bytes) (offset : Nat) (r : β), ∃ encoded b', c.encode (view r) = .ok encoded ∧
    encoded.length = c.size ∧ c.write (view r) b offset = Attempt.ended (offset + c.size ≤ b.length) b' ∧
    b'.length = b.length ∧
    (∀ a ∈ accesses, offset + a.last ≤ b.length → ∀ i, offset + a.first ≤ i → i < offset + a.last →
      b'[i]? = encoded[i - offset]?) ∧
    ∀ i, (∀ a ∈ accesses, offset + a.last ≤ b.length → i < offset + a.first ∨ offset + a.last ≤ i) → b'[i]? = b[i]?
  /-- With offsets of 64 bits the accesses stop at the same place, although their positions wrap around. -/
  words_eq : ∀ (b : Bytes) (word : UInt64) (r : β), b.length < 2 ^ 64 →
    (readWords b word accesses r).map view = c.read b word.toNat (view r) ∧
      writeWords r word accesses b = c.write (view r) b word.toNat

variable {c : Codec α} {as' : List (Access α)} {Valid : α → Prop} {view : β → α} {as : List (Access β)}

theorem Runs.encode_eq (h : c.Runs as' Valid) (hs : List.Forall₂ (Shows view) as as') (hadj : Adjoin 0 as c.size)
    {r : β} (hr : Valid (view r)) (hlen : ∀ a ∈ as, (a.store r).length = a.last - a.first) :
    c.encode (view r) = .ok (as.flatMap fun a => a.store r) := by
  have hstored := hadj.length_stored hlen
  have hfit : ∀ a ∈ as, 0 + a.last ≤ (List.replicate c.size (0 : UInt8)).length := by
    intro a ha
    rw [List.length_replicate, Nat.zero_add]
    exact (hadj.last_bounds ha).2
  rw [encode, (h 0).write_eq hr, writeAll_view hs, ← List.append_nil as, hadj.writeAll_of_fit hfit hlen,
    List.append_nil]
  have hsplice : Scalar.splice (List.replicate c.size 0) 0 (as.flatMap fun a => a.store r) =
      as.flatMap fun a => a.store r := by
    rw [Scalar.splice, List.take_zero, List.nil_append, List.drop_of_length_le, List.append_nil]
    rw [List.length_replicate]
    exact hstored.ge
  exact congrArg Except.ok hsplice

theorem Runs.stopsCleanly {ends : List Nat} (h : c.Runs as' Valid) (hv : ∀ r, Valid (view r))
    (hs : List.Forall₂ (Shows view) as as') (hlast : as.map (·.last) = ends)
    (hfirst : as.map (·.first) = (0 :: ends).dropLast) (hasc : ends.Pairwise (· < ·))
    (hend : ends.getLast? = some c.size) (hsize : c.size < 2 ^ 64) : c.StopsCleanly view as ends := by
  have hne : as ≠ [] := by
    rintro rfl
    rw [← hlast] at hend
    cases hend
  have hadj : Adjoin 0 as c.size := by
    refine .of_ends hlast hfirst ?_ ?_
    · exact List.pairwise_cons.mpr ⟨fun _ _ => Nat.zero_le _, hasc.imp Nat.le_of_lt⟩
    · rw [List.getLast?_cons, hend]
      rfl
  have hstore : ∀ r, ∀ a ∈ as, (a.store r).length = a.last - a.first := by
    intro r
    refine ((List.forall₂_and_left _ _).mp (hs.imp fun a a' ha => ⟨?_, ha⟩)).1
    have := ha.length_store r
    omega
  refine ⟨hlast, hfirst, hasc, hend, fun b offset r => ?_, fun b offset r => ?_, fun b word r hb => ⟨?_, ?_⟩⟩
  · rw [(h offset).read_eq (hv r), readAll_view hs, hadj.readAll_eq hne]
    unfold Attempt.ended
    split <;> rfl
  · obtain ⟨b', hb', hlen, hin, hout⟩ := hadj.exists_writeAll_eq hne (hstore r) b offset
    refine ⟨_, b', h.encode_eq hs hadj (hv r) (hstore r), ?_, ?_, hlen, hin, hout⟩
    · rw [← hadj.length_stored (hstore r), Nat.zero_add]
    · rw [(h offset).write_eq (hv r), writeAll_view hs, hb']
  · rw [(h word.toNat).read_eq (hv r), readAll_view hs, hadj.readWords_eq hb hsize word.toNat_lt]
  · rw [(h word.toNat).write_eq (hv r), writeAll_view hs, hadj.writeWords_eq hb hsize word.toNat_lt (hstore r)]

end Codec

/-! ### The sample records -/

namespace Scalar

/-- The number that bytes stand for. -/
def ofBytes (t : Scalar) (bytes : Bytes) : t.Value :=
  if h : bytes.length = t.width then ⟨t.decode bytes, t.inRange_decode h⟩ else ⟨0, t.inRange_zero⟩

def accesses (t : Scalar) : List (Access t.Value) :=
  [⟨0, t.width, fun bytes _ => t.ofBytes bytes, fun x => t.encode x.1⟩]

theorem shows_accesses (t : Scalar) :
    List.Forall₂ (Shows (Value.element (ρ := ρ))) t.accesses [t.elementAccess] := by
  refine .cons ⟨rfl, rfl, ?_, fun _ => rfl, fun _ => ?_⟩ .nil
  · intro bytes x h
    have hlen : bytes.length = t.width := by simpa using h
    simp only [elementAccess, ofBytes, dif_pos hlen]
    rfl
  · simp

end Scalar

namespace Samples

def Inner.accesses : List (Access Inner) :=
  within 0 Inner.kind (fun r x => { r with kind := x }) Scalar.u16.accesses ++
  within 2 Inner.delta (fun r x => { r with delta := x }) Scalar.i16.accesses

/-- The four bytes are copied at once. -/
def flagsAccesses : List (Access (Vector Scalar.u8.Value 4)) :=
  [⟨0, 4, fun bytes _ => Vector.ofFn fun i => Scalar.u8.ofBytes ((bytes.drop i).take 1),
    fun xs => xs.toList.flatMap fun x => Scalar.u8.encode x.1⟩]

def Sample.accesses : List (Access Sample) :=
  within 0 Sample.id (fun r x => { r with id := x }) Scalar.u32.accesses ++
  within 4 Sample.flags (fun r x => { r with flags := x }) flagsAccesses

def Outer.accesses : List (Access Outer) :=
  within 0 Outer.magic (fun r x => { r with magic := x }) Scalar.i32.accesses ++
  within 4 Outer.first (fun r x => { r with first := x }) Inner.accesses ++
  within 8 (fun r : Outer => r.rest[0]) (fun r x => { r with rest := r.rest.set 0 x }) Inner.accesses ++
  within 12 (fun r : Outer => r.rest[1]) (fun r x => { r with rest := r.rest.set 1 x }) Inner.accesses ++
  within 16 Outer.tag (fun r x => { r with tag := x }) Scalar.u8.accesses ++
  within 17 (fun r : Outer => r.words[0]) (fun r x => { r with words := r.words.set 0 x }) Scalar.u32.accesses ++
  within 21 (fun r : Outer => r.words[1]) (fun r x => { r with words := r.words.set 1 x }) Scalar.u32.accesses

/-! The accesses that the record code of the three definitions does. -/

def innerAccesses : List (Access Flat) := RecordDef.fieldAccesses (fun _ => []) inner.fields

def sampleAccesses : List (Access Flat) := RecordDef.fieldAccesses (fun _ => []) sample.fields

def outerAccesses : List (Access Nested) := RecordDef.fieldAccesses (fun _ => innerAccesses) outer.fields

theorem runs_inner : innerCodec.Runs innerAccesses (inner.Fits noRecord) := by
  have hrec : ∀ f ∈ inner.fields, f.isRecord = true → nothing.Runs [] (noRecord f.targetType) := by simp [inner]
  exact RecordDef.runs_codec (Conversion.laidOut_of_readFrom read_inner) hrec

theorem runs_sample : sampleCodec.Runs sampleAccesses (sample.Fits noRecord) := by
  have hrec : ∀ f ∈ sample.fields, f.isRecord = true → nothing.Runs [] (noRecord f.targetType) := by simp [sample]
  exact RecordDef.runs_codec (Conversion.laidOut_of_readFrom read_sample) hrec

theorem runs_outer : outerCodec.Runs outerAccesses (outer.Fits innerRecord) := by
  have hrec : ∀ f ∈ outer.fields, f.isRecord = true → innerCodec.Runs innerAccesses (innerRecord f.targetType) :=
    fun _ _ _ => runs_inner
  exact RecordDef.runs_codec (Conversion.laidOut_of_readFrom read_outer) hrec

theorem shows_inner : List.Forall₂ (Shows Inner.value) Inner.accesses innerAccesses := by
  have hkind : inner.fields[0].accesses (ρ := Unit) (fun _ => []) =
    ([Scalar.u16.elementAccess].map (shift 0)).map (inside .one) := rfl
  have hdelta : inner.fields[1].accesses (ρ := Unit) (fun _ => []) =
    ([Scalar.i16.elementAccess].map (shift 2)).map (inside .one) := rfl
  show List.Forall₂ _ (_ ++ _)
    ((inner.fields[0].accesses _).map _ ++ ((inner.fields[1].accesses _).map _ ++ []).map _)
  rw [hkind, hdelta, List.append_nil, map_inside_inside, map_inside_inside, map_inside_inside]
  exact shows_append
    (shows_within Scalar.u16.shows_accesses 0 _ (fun _ => rfl) fun _ _ => rfl)
    (shows_within Scalar.i16.shows_accesses 2 _ (fun _ => rfl) fun _ _ => rfl)

theorem shows_flags : List.Forall₂ (Shows fun xs : Vector Scalar.u8.Value 4 => .many (xs.toList.map (·.element)))
    flagsAccesses [bytesAccess (ρ := Unit) 0 4] := by
  have helement (x : UInt8) : (Scalar.u8.ofBytes [x]).element = (.number x.toNat : Element Unit) :=
    congrArg Element.number (decode_u8 x)
  refine .cons ⟨rfl, rfl, ?_, ?_, ?_⟩ .nil
  · intro bytes xs h
    have hlen : bytes.length = 4 := by simpa using h
    refine congrArg FieldValue.many (List.ext_getElem (by simp [Code.byteElements, hlen]) fun i hi _ => ?_)
    have hbyte : i < bytes.length := by simpa [Code.byteElements] using hi
    simp only [Code.byteElements, List.getElem_map, Vector.getElem_toList, Vector.getElem_ofFn,
      List.drop_eq_getElem_cons hbyte, List.take_succ_cons, List.take_zero, helement]
  · intro xs
    simp only [bytesAccess, List.map_map, encode_u8 (ρ := Unit)]
    exact List.map_eq_flatMap
  · intro xs
    simp [Scalar.width]

theorem shows_sample : List.Forall₂ (Shows Sample.value) Sample.accesses sampleAccesses := by
  have hid : sample.fields[0].accesses (ρ := Unit) (fun _ => []) =
    ([Scalar.u32.elementAccess].map (shift 0)).map (inside .one) := rfl
  have hflags : sample.fields[1].accesses (ρ := Unit) (fun _ => []) = [bytesAccess 0 4].map (shift 4) := rfl
  show List.Forall₂ _ (_ ++ _)
    ((sample.fields[0].accesses _).map _ ++ ((sample.fields[1].accesses _).map _ ++ []).map _)
  rw [hid, hflags, List.append_nil, map_inside_inside, map_inside_inside]
  exact shows_append
    (shows_within Scalar.u32.shows_accesses 0 _ (fun _ => rfl) fun _ _ => rfl)
    (shows_within shows_flags 4 _ (fun _ => rfl) fun _ _ => rfl)

theorem Outer.value_eq (r : Outer) : r.value =
    [.one r.magic.element, .one r.first.element, .many [r.rest[0].element, r.rest[1].element], .one r.tag.element,
      .many [r.words[0].element, r.words[1].element]] := by
  have htwo {α : Type} (xs : Vector α 2) : xs.toList = [xs[0], xs[1]] := by
    obtain ⟨⟨xs⟩, hxs⟩ := xs
    obtain ⟨x, y, rfl⟩ := List.length_eq_two.mp hxs
    rfl
  simp only [value, htwo, List.map_cons, List.map_nil]

theorem shows_outer : List.Forall₂ (Shows Outer.value) Outer.accesses outerAccesses := by
  have hmagic : outer.fields[0].accesses (fun _ => innerAccesses) =
    ([Scalar.i32.elementAccess].map (shift 0)).map (inside .one) := rfl
  have hfirst : outer.fields[1].accesses (fun _ => innerAccesses) =
    ((innerAccesses.map (inside .record)).map (shift 4)).map (inside .one) := rfl
  have hrest : outer.fields[2].accesses (fun _ => innerAccesses) =
    (((innerAccesses.map (inside .record)).map (shift 8)).map (inside .head) ++
      (((innerAccesses.map (inside .record)).map (shift 12)).map (inside .head) ++ []).map (inside .tail)).map
        (inside .many) := rfl
  have htag : outer.fields[3].accesses (fun _ => innerAccesses) =
    ([Scalar.u8.elementAccess].map (shift 16)).map (inside .one) := rfl
  have hwords : outer.fields[4].accesses (fun _ => innerAccesses) =
    (([Scalar.u32.elementAccess].map (shift 17)).map (inside .head) ++
      (([Scalar.u32.elementAccess].map (shift 21)).map (inside .head) ++ []).map (inside .tail)).map
        (inside .many) := rfl
  show List.Forall₂ _ (_ ++ _ ++ _ ++ _ ++ _ ++ _ ++ _)
    ((outer.fields[0].accesses _).map _ ++ ((outer.fields[1].accesses _).map _ ++
      ((outer.fields[2].accesses _).map _ ++ ((outer.fields[3].accesses _).map _ ++
        ((outer.fields[4].accesses _).map _ ++ []).map _).map _).map _).map _)
  rw [hmagic, hfirst, hrest, htag, hwords]
  simp only [List.append_nil, List.map_append, map_inside_shift, map_inside_inside, ← List.append_assoc]
  refine shows_append (shows_append (shows_append (shows_append (shows_append (shows_append ?_ ?_) ?_) ?_) ?_) ?_) ?_
  · exact shows_within Scalar.i32.shows_accesses 0 _ (fun _ => rfl) fun _ _ => rfl
  · exact shows_within shows_inner 4 _ (fun _ => rfl) fun _ _ => rfl
  · refine shows_within shows_inner 8 _ (fun r => by rw [Outer.value_eq]; rfl) fun r x => ?_
    simp only [Outer.value_eq, Vector.getElem_set_self, ne_eq, zero_ne_one, not_false_eq_true, Vector.getElem_set_ne]
    rfl
  · refine shows_within shows_inner 12 _ (fun r => by rw [Outer.value_eq]; rfl) fun r x => ?_
    simp only [Outer.value_eq, ne_eq, one_ne_zero, not_false_eq_true, Vector.getElem_set_ne, Vector.getElem_set_self]
    rfl
  · exact shows_within Scalar.u8.shows_accesses 16 _ (fun _ => rfl) fun _ _ => rfl
  · refine shows_within Scalar.u32.shows_accesses 17 _ (fun r => by rw [Outer.value_eq]; rfl) fun r x => ?_
    simp only [Outer.value_eq, Vector.getElem_set_self, ne_eq, zero_ne_one, not_false_eq_true, Vector.getElem_set_ne]
    rfl
  · refine shows_within Scalar.u32.shows_accesses 21 _ (fun r => by rw [Outer.value_eq]; rfl) fun r x => ?_
    simp only [Outer.value_eq, ne_eq, one_ne_zero, not_false_eq_true, Vector.getElem_set_ne, Vector.getElem_set_self]
    rfl

/-- The sample records are read and written up to the first access that the buffer has no room for, at every offset
of 64 bits. -/
theorem samples_stop_cleanly :
    innerCodec.StopsCleanly Inner.value Inner.accesses [2, 4] ∧
    sampleCodec.StopsCleanly Sample.value Sample.accesses [4, 8] ∧
    outerCodec.StopsCleanly Outer.value Outer.accesses [4, 6, 8, 10, 12, 14, 16, 17, 21, 25] :=
  ⟨runs_inner.stopsCleanly (fun r => (fits_inner_iff _).mpr ⟨r, rfl⟩) shows_inner rfl rfl (by decide) rfl
      (by decide),
    runs_sample.stopsCleanly (fun r => (fits_sample_iff _).mpr ⟨r, rfl⟩) shows_sample rfl rfl (by decide) rfl
      (by decide),
    runs_outer.stopsCleanly (fun r => (fits_outer_iff _).mpr ⟨r, rfl⟩) shows_outer rfl rfl (by decide) rfl
      (by decide)⟩

end Samples

end RecordLayout
