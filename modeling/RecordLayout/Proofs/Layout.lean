import RecordLayout.Proofs.MemberList
import RecordLayout.Proofs.Tokens
import Mathlib.Algebra.Ring.Nat

/-!
# The layout of a definition that was read

The fields of a definition lie one behind the other from offset zero, and no size or position leaves
the range of 64 bits, so that unchecked 64-bit arithmetic on them is exact. `LaidOut` is the invariant
that every accepted line keeps. A line that would break the bound is refused with its number.
-/

namespace RecordLayout

theorem maxSize_eq : maxSize = 2 ^ 64 - 1 := by decide

theorem Field.totalSize_eq_sum (fields : List Field) :
    totalSize fields = (fields.map fun f => f.elementSize * f.count.getD 1).sum := by
  induction fields with
  | nil => rfl
  | cons f fields ih => rw [totalSize_cons, List.map_cons, List.sum_cons, ih, size]

/-- Fields that lie one behind the other, without gaps, from an offset on. -/
def Contiguous : Nat → List Field → Prop
  | _, [] => True
  | start, f :: fs => f.offset = start ∧ Contiguous f.stop fs

namespace Contiguous

variable {start : Nat} {fs gs : List Field} {f : Field}

theorem append_iff : Contiguous start (fs ++ gs) ↔
    Contiguous start fs ∧ Contiguous (start + Field.totalSize fs) gs := by
  induction fs generalizing start with
  | nil => simp [Contiguous]
  | cons f fs ih =>
    simp only [List.cons_append, Contiguous, ih, Field.totalSize_cons, and_assoc]
    refine and_congr_right fun hf => ?_
    rw [Field.stop, hf, Nat.add_assoc]

theorem snoc (h : Contiguous 0 fs) (hf : f.offset = Field.totalSize fs) :
    Contiguous 0 (fs ++ [f]) :=
  append_iff.mpr ⟨h, by rw [hf, Nat.zero_add], trivial⟩

theorem offset_eq (h : Contiguous 0 fs) {i : Nat} (hi : fs[i]? = some f) :
    f.offset = Field.totalSize (fs.take i) := by
  obtain ⟨hlt, rfl⟩ := List.getElem?_eq_some_iff.mp hi
  rw [← List.take_append_drop i fs, List.drop_eq_getElem_cons hlt, append_iff] at h
  rw [h.2.1, Nat.zero_add]

end Contiguous

namespace Field

/-- Where the type and the size of a field that was read come from. -/
structure Sized (f : Field) : Prop where
  size_pos : 0 < f.elementSize
  target_eq : f.targetType = RecordLayout.targetType f.typeName
  builtIn : f.isRecord = false → primitiveSize? f.typeName = some f.elementSize

/-- The size of a field by 64-bit arithmetic. -/
def wordSize (f : Field) : UInt64 := .ofNat f.elementSize * .ofNat (f.count.getD 1)

/-- The end of a field by 64-bit arithmetic. -/
def wordStop (f : Field) : UInt64 := .ofNat f.offset + f.wordSize

end Field

/-- The size of a record by 64-bit arithmetic. -/
def RecordDef.wordSize (d : RecordDef) : UInt64 := d.fields.foldl (fun n f => n + f.wordSize) 0

/-- Fields as they are read: without gaps, within bounds, and with types of a known size. -/
structure LaidOut (fields : List Field) : Prop where
  contiguous : Contiguous 0 fields
  bounded : Field.totalSize fields ≤ maxSize
  sized : ∀ f ∈ fields, f.Sized

namespace LaidOut

variable {fields : List Field} {f : Field}

theorem nil : LaidOut [] := ⟨trivial, Nat.zero_le _, by simp⟩

theorem snoc (h : LaidOut fields) (hf : f.Sized) (ho : f.offset = Field.totalSize fields)
    (hs : f.stop ≤ maxSize) : LaidOut (fields ++ [f]) := by
  refine ⟨h.contiguous.snoc ho, ?_, ?_⟩
  · rw [Field.totalSize_append, ← ho, Field.totalSize_cons, Field.totalSize_nil, Nat.add_zero]
    exact hs
  · intro g hg
    rcases List.mem_append.mp hg with hg | hg
    · exact h.sized g hg
    · rw [List.mem_singleton.mp hg]; exact hf

theorem stop_le (h : LaidOut fields) (hf : f ∈ fields) : f.stop ≤ Field.totalSize fields := by
  obtain ⟨i, hi, rfl⟩ := List.getElem_of_mem hf
  rw [Field.stop, h.contiguous.offset_eq (List.getElem?_eq_getElem hi)]
  conv_rhs => rw [← List.take_append_drop i fields, List.drop_eq_getElem_cons hi]
  simp only [Field.totalSize_append, Field.totalSize_cons]
  omega

theorem toNat_wordSize (h : LaidOut fields) (hf : f ∈ fields) : f.wordSize.toNat = f.size := by
  have hb : f.size ≤ maxSize :=
    (Nat.le_add_left _ _).trans ((h.stop_le hf).trans h.bounded)
  have : f.size < 2 ^ 64 := by rw [maxSize_eq] at hb; omega
  rw [Field.wordSize, UInt64.toNat_mul, UInt64.toNat_ofNat', UInt64.toNat_ofNat', ← Nat.mul_mod]
  exact Nat.mod_eq_of_lt this

theorem toNat_wordStop (h : LaidOut fields) (hf : f ∈ fields) : f.wordStop.toNat = f.stop := by
  have hb := (h.stop_le hf).trans h.bounded
  have : f.offset + f.size < 2 ^ 64 := by rw [Field.stop, maxSize_eq] at hb; omega
  rw [Field.wordStop, UInt64.toNat_add, h.toNat_wordSize hf, UInt64.toNat_ofNat', Nat.mod_add_mod]
  exact Nat.mod_eq_of_lt this

/-- Adding up sizes word by word is exact as long as the exact sum fits. -/
theorem toNat_foldl_wordSize {fs : List Field} {n : UInt64} (hs : ∀ f ∈ fs, f.wordSize.toNat = f.size)
    (hb : n.toNat + Field.totalSize fs ≤ maxSize) :
    (fs.foldl (fun n f => n + f.wordSize) n).toNat = n.toNat + Field.totalSize fs := by
  induction fs generalizing n with
  | nil => simp
  | cons f fs ih =>
    simp only [Field.totalSize_cons, List.foldl_cons] at hb ⊢
    have hn : (n + f.wordSize).toNat = n.toNat + f.size := by
      rw [UInt64.toNat_add, hs f (by simp)]
      exact Nat.mod_eq_of_lt (by rw [maxSize_eq] at hb; omega)
    rw [ih (fun g hg => hs g (by simp [hg])) (by omega), hn, Nat.add_assoc]

theorem toNat_recordWordSize {d : RecordDef} (h : LaidOut d.fields) : d.wordSize.toNat = d.size := by
  have := toNat_foldl_wordSize (n := 0) (fun f hf => h.toNat_wordSize hf)
    (by rw [UInt64.toNat_zero, Nat.zero_add]; exact h.bounded)
  rw [UInt64.toNat_zero, Nat.zero_add] at this
  exact this

end LaidOut

namespace Conversion

variable {ρ : Type} [SizeSource ρ] {c c' : Conversion ρ} {source : Source} {d : RecordDef}

theorem sized_readField {text : String} {line offset : Nat} {f : Field} {es : List Event}
    (h : (readField text line offset).run c = ⟨.ok f, c', es⟩) : f.Sized := by
  obtain ⟨m, s, d, -, hs, -, -, rfl⟩ := exists_of_readField h
  refine ⟨hs.size_pos, rfl, fun hb => ?_⟩
  cases hs with
  | builtIn hp => exact hp
  | known => cases hb
  | answered => cases hb

theorem Reached.Takes.laidOut {s s' : Reached ρ} {line : NumberedLine} (h : s.Takes line s')
    (hs : LaidOut s.fields) : LaidOut s'.fields := by
  cases h with
  | blank => exact hs
  | field hl hr hf => exact hs.snoc (sized_readField hr) (offset_readField hr) hf

theorem laidOut_of_readFrom (h : ((readFrom source).run c).result = .ok d) : LaidOut d.fields := by
  obtain ⟨s, hs, hf, -, -⟩ := readFrom_invariant (P := fun s => LaidOut s.fields)
    (fun _ _ _ _ hs ht => ht.laidOut hs) LaidOut.nil h
  rw [← hf]
  exact hs

theorem number_eq_of_numberedLines {header line : NumberedLine} {pre post : List NumberedLine}
    (h : numberedLines source = header :: (pre ++ line :: post)) : line.number = pre.length + 2 := by
  have hi : (numberedLines source)[pre.length + 1]? = some line := by
    rw [h, List.getElem?_cons_succ]
    simp
  rw [numberedLines, List.getElem?_map, List.getElem?_zipIdx] at hi
  obtain ⟨p, hp, rfl⟩ := Option.map_eq_some_iff.mp hi
  obtain ⟨t, -, rfl⟩ := Option.map_eq_some_iff.mp hp
  simp

theorem Reached.result_go_of_too_large {s : Reached ρ} {line : NumberedLine} {text : String}
    {m : MemberLine} {t : Sizing} {d : Declarator} (rest : List NumberedLine) (hl : line.Member text)
    (hm : MemberLine.ofString? text = some m)
    (ht : ((sizing m.typeName line.number).run s.conversion).result = .ok t)
    (hd : Declarator.parsed m.declarator line.number = .ok d)
    (hb : maxSize < s.offset + t.size * d.count.getD 1) :
    (s.go (line :: rest)).result = .error (.invalidArraySize
      (if maxSize < t.size * d.count.getD 0 then m.declarator else d.identifier) line.number) := by
  have htext : trimmed text = text := by
    obtain ⟨raw, -, rfl, -, -⟩ := hl
    exact trimmed_trimmed raw
  obtain ⟨es, hr, -⟩ := run_readField s.conversion line.number s.offset (htext.symm ▸ hm)
  rw [ht, Except.bind, place, hd] at hr
  dsimp only at hr
  by_cases hp : maxSize < t.size * d.count.getD 0
  · rw [if_pos hp] at hr ⊢
    rw [go_of_stops (.refused hl hr)]
  · rw [if_neg hp] at hr ⊢
    rw [go_of_stops (.tooLarge hl hr hb)]
    rfl

/-- The layout of a definition is exact. If a definition is read, every element has a size, the offset
of a field is the sum of the sizes in front of it, the sum of all is the size of the record and fits into
64 bits, and 64-bit arithmetic gives the same sizes and ends. If the lines up to a member are accepted,
the member has a type and a declarator, but its size or its end does not fit, the definition is refused
with an invalid size at that line. -/
theorem layout_exact_or_refused (c : Conversion ρ) (source : Source) :
    (∀ d, ((readFrom source).run c).result = .ok d →
      (∀ f ∈ d.fields, 0 < f.elementSize) ∧
      (∀ i f, d.fields[i]? = some f →
        f.offset = ((d.fields.take i).map fun g => g.elementSize * g.count.getD 1).sum) ∧
      (d.fields.map fun g => g.elementSize * g.count.getD 1).sum = d.size ∧ d.size ≤ 2 ^ 64 - 1 ∧
      (∀ f ∈ d.fields, f.wordSize.toNat = f.elementSize * f.count.getD 1 ∧
        f.wordStop.toNat = f.offset + f.elementSize * f.count.getD 1) ∧
      d.wordSize.toNat = d.size) ∧
    (∀ header raw name pre line post s text m t d,
      numberedLines source = header :: (pre ++ line :: post) →
      header.text = .ok raw → headerName? raw = some name →
      (Reached.start c).Accepts pre s → line.Member text → MemberLine.ofString? text = some m →
      ((sizing m.typeName line.number).run s.conversion).result = .ok t →
      Declarator.parsed m.declarator line.number = .ok d →
      2 ^ 64 - 1 < t.size * d.count.getD 1 ∨
        2 ^ 64 - 1 < (s.fields.map fun g => g.elementSize * g.count.getD 1).sum + t.size * d.count.getD 1 →
      line.number = pre.length + 2 ∧
      ((readFrom source).run c).result = .error (.invalidArraySize
        (if 2 ^ 64 - 1 < t.size * d.count.getD 0 then m.declarator else d.identifier) line.number)) := by
  constructor
  · intro d hd
    have h := laidOut_of_readFrom hd
    refine ⟨fun f hf => (h.sized f hf).size_pos, ?_, (Field.totalSize_eq_sum d.fields).symm, ?_,
      fun f hf => ⟨h.toNat_wordSize hf, h.toNat_wordStop hf⟩, h.toNat_recordWordSize⟩
    · intro i f hi
      rw [← Field.totalSize_eq_sum]
      exact h.contiguous.offset_eq hi
    · rw [← maxSize_eq]
      exact h.bounded
  · intro header raw name pre line post s text m t d hs hh hn ha hl hm ht hd hb
    have hb' : maxSize < s.offset + t.size * d.count.getD 1 := by
      rcases hb with hb | hb
      · exact hb.trans_le (Nat.le_add_left _ _)
      · rwa [← Field.totalSize_eq_sum] at hb
    refine ⟨number_eq_of_numberedLines hs, ?_⟩
    obtain ⟨es, hr, -⟩ := run_readLines_header c (pre ++ line :: post) hh hn
    rw [run_readFrom, hs, hr]
    show Except.map _ _ = _
    rw [Reached.go_of_accepts ha, Reached.result_go_of_too_large post hl hm ht hd hb']
    rfl

/-- A record of the largest size is read, and one that is two bytes longer is refused. -/
theorem layout_exact_at_limit :
    let c : Conversion (String → Option Answer) := ⟨"", .ofEntries [("Big", 2 ^ 64 - 3)], fun _ => none⟩
    (∃ d, ((readFrom (.ofString "struct A\nBig b;\nUInt16 x;\n\x7d;")).run c).result = .ok d ∧
      d.wordSize.toNat = 2 ^ 64 - 1) ∧
    ((readFrom (.ofString "struct A\nBig b;\nUInt32 x;\n\x7d;")).run c).result =
      .error (.invalidArraySize "x" 3) := by
  intro c
  constructor
  · let d : RecordDef := ⟨"A", [⟨0, 2 ^ 64 - 3, none, "Big", "Big", "b", "", true, false⟩,
      ⟨2 ^ 64 - 3, 2, none, "UInt16", "UInt16", "x", "", false, false⟩]⟩
    have hd : ((readFrom (.ofString "struct A\nBig b;\nUInt16 x;\n\x7d;")).run c).result = .ok d := by
      decide +kernel
    exact ⟨d, hd, ((layout_exact_or_refused c _).1 d hd).2.2.2.2.2⟩
  · let f : Field := ⟨0, 2 ^ 64 - 3, none, "Big", "Big", "b", "", true, false⟩
    have hf : ((readField "Big b;" 2 0).run c).result = .ok f := by decide +kernel
    have ht : (Reached.start c).Takes ⟨2, .ok "Big b;"⟩ _ :=
      .field ⟨_, rfl, by decide, by decide, by decide⟩ (Outcome.eq_of_result hf) (by decide)
    exact ((layout_exact_or_refused c _).2 ⟨1, .ok "struct A"⟩ _ "A" [⟨2, .ok "Big b;"⟩] ⟨3, .ok "UInt32 x;"⟩
      [⟨4, .ok "\x7d;"⟩] _ "UInt32 x;" ⟨"UInt32", "x;", ""⟩ ⟨4, false, false⟩ ⟨"x", none⟩ rfl rfl
      (by decide) (.cons ht (.nil _)) ⟨_, rfl, by decide, by decide, by decide⟩ (by decide)
      (by rw [run_sizing_builtIn rfl]) (by decide) (.inr (by decide))).2

end Conversion

end RecordLayout
