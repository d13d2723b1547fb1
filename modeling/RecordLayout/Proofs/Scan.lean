import RecordLayout.Directory.DefinitionFile
import RecordLayout.Proofs.MemberTypes
import RecordLayout.Proofs.TextLines

/-!
# A quick look at a definition and its reading

A quick look sees every type that reading the definition can ask for (`asked_readFrom`), and it finds
the name under which the record is recorded (`catalog_readFrom`). A type that was not asked for while a
definition was read has the size that was known for it before (`elementSize_readFrom`).
-/

namespace RecordLayout

namespace Conversion

/-- The types that a quick look finds in lines: the first tokens, up to the terminator. -/
def lineTypes (lines : List NumberedLine) : List String :=
  ((lines.filterMap (·.text.toOption)).takeWhile fun l => trimmed l ≠ terminator).filterMap fun l =>
    (Text.firstToken? l.toList).map String.ofList

section LineTypes

variable {line : NumberedLine} {rest : List NumberedLine} {raw text name : String}

theorem lineTypes_cons (hl : line.text = .ok raw) (ht : trimmed raw ≠ terminator) :
    lineTypes (line :: rest) =
      ((Text.firstToken? raw.toList).map String.ofList).toList ++ lineTypes rest := by
  have hcons : (line :: rest).filterMap (·.text.toOption) = raw :: rest.filterMap (·.text.toOption) :=
    List.filterMap_cons_some (by rw [hl]; rfl)
  rw [lineTypes, hcons, List.takeWhile_cons_of_pos (by simpa using ht), List.filterMap_cons]
  cases (Text.firstToken? raw.toList).map String.ofList <;> rfl

theorem mem_lineTypes_of_memberTypes {lines : List NumberedLine} (h : name ∈ memberTypes lines) :
    name ∈ lineTypes lines := by
  induction lines with
  | nil => cases h
  | cons line rest ih =>
    cases hl : line.text with
    | error fault =>
      have hnone : line.content? = none := by rw [NumberedLine.content?, hl]; rfl
      have hne : line.content? ≠ some terminator := by rw [hnone]; exact (Option.some_ne_none _).symm
      rw [memberTypes_cons hne, NumberedLine.memberType?, hnone] at h
      rw [lineTypes, List.filterMap_cons_none (by rw [hl]; rfl)]
      exact ih h
    | ok raw =>
      have hc := NumberedLine.content?_of_ok hl
      by_cases ht : trimmed raw = terminator
      · rw [memberTypes, List.takeWhile_cons_of_neg (by simp [hc, ht])] at h
        cases h
      · have hne : line.content? ≠ some terminator := by rw [hc]; exact fun h => ht (Option.some.inj h)
        rw [memberTypes_cons hne, List.mem_append] at h
        rw [lineTypes_cons hl ht, List.mem_append]
        refine h.imp (fun h => ?_) ih
        rw [Option.mem_toList, NumberedLine.memberType?, hc, Option.bind_some, Option.map_eq_some_iff] at h
        obtain ⟨m, hm, rfl⟩ := h
        rw [firstToken?_of_ofString? hm]
        exact List.mem_singleton_self _

theorem numberedLines_ofString (text : String) :
    numberedLines (.ofString text) =
      (DefinitionFile.textLines text).zipIdx.map fun (l, i) => ⟨i + 1, .ok l⟩ := by
  rw [numberedLines, Source.lines_ofString, DefinitionFile.textLines, List.zipIdx_map, List.zipIdx_map,
    List.map_map, List.map_map]
  rfl

theorem textLines_eq (text : String) :
    DefinitionFile.textLines text = (numberedLines (.ofString text)).filterMap (·.text.toOption) := by
  rw [numberedLines_ofString, List.filterMap_map]
  conv_lhs => rw [← List.zipIdx_map_fst 0 (DefinitionFile.textLines text), ← List.filterMap_eq_map]
  rfl

theorem ofText_of_numberedLines {path : String} {header : NumberedLine}
    (h : numberedLines (.ofString text) = header :: rest) (hh : header.text = .ok raw) :
    (DefinitionFile.ofText path text).recordName = headerName? raw ∧
      (DefinitionFile.ofText path text).memberTypes = lineTypes rest := by
  have hlines : DefinitionFile.textLines text = raw :: rest.filterMap (·.text.toOption) := by
    rw [textLines_eq, h, List.filterMap_cons_some (by rw [hh]; rfl)]
  simp only [DefinitionFile.ofText, hlines, List.head?_cons, Option.bind_some, List.tail_cons]
  constructor
  · rw [Text.getElem?_one_words]
    rfl
  · rw [List.takeWhile_map, List.filterMap_map]
    refine List.filterMap_congr fun l _ => ?_
    rw [Function.comp_apply, toList_trimmed, Text.head?_words, Text.firstToken?_trim]

end LineTypes

variable {ρ : Type} [SizeSource ρ] {c c' : Conversion ρ} {text typeName name : String} {d : RecordDef}

theorem asked_readField_of_unknown {line offset : Nat} {f : Field} {es : List Event}
    (h : (readField text line offset).run c = ⟨.ok f, c', es⟩) (hu : c.Unknown f.typeName) :
    f.typeName ∈ askedTypes es := by
  obtain ⟨m, s, d, hm, -, -, -, rfl⟩ := exists_of_readField h
  obtain ⟨es', hr, hq⟩ := run_readField c line offset hm
  obtain ⟨es'', hs, hq'⟩ := run_sizing_unknown line hu
  rw [h, Outcome.mk.injEq] at hr
  obtain ⟨-, -, rfl⟩ := hr
  have hev : askedTypes ((sizing m.typeName line).run c).events = [m.typeName] := by
    rw [show (sizing m.typeName line).run c = _ from hs]
    exact hq'
  rw [hq, hev]
  exact List.mem_singleton.mpr rfl

namespace Reached

variable {s s' : Reached ρ} {line : NumberedLine} {lines : List NumberedLine}

/-- The fields read so far have sizes that were known at the start, unless they were asked for. -/
def KnownFrom (c : Conversion ρ) (s : Reached ρ) : Prop :=
  Asks c (askedTypes s.events) s.conversion ∧
    ∀ f ∈ s.fields, primitiveSize? f.typeName = none → f.typeName ∉ askedTypes s.events →
      c.catalog.find? f.typeName = some f.elementSize

theorem Takes.knownFrom (h : s.Takes line s') (hs : KnownFrom c s) : KnownFrom c s' := by
  cases h with
  | blank => exact hs
  | @field text f c' es hl hr hf =>
    have ha := asks_readField s.conversion text line.number s.offset
    rw [hr] at ha
    refine ⟨by rw [askedTypes_append]; exact hs.1.trans ha, ?_⟩
    intro g hg hp hn
    rw [askedTypes_append, List.mem_append, not_or] at hn
    rcases List.mem_append.mp hg with hg | hg
    · exact hs.2 g hg hp hn.1
    · obtain rfl := List.mem_singleton.mp hg
      obtain ⟨m, t, d, hm, hsized, -, -, rfl⟩ := exists_of_readField hr
      cases hsized with
      | builtIn hb => rw [show primitiveSize? m.typeName = none from hp] at hb; cases hb
      | known _ hk =>
        rw [← hs.1.find?_of_not_mem hn.1]
        exact (SizeCatalog.size?_eq_some_iff.mp hk).1
      | answered hu => exact absurd (asked_readField_of_unknown hr hu) hn.2

end Reached

/-- Reading a definition asks only for types that a quick look finds, and that were unknown before. -/
theorem asked_readFrom (path : String)
    (h : typeName ∈ askedTypes ((readFrom (.ofString text)).run c).events) :
    typeName ∈ (DefinitionFile.ofText path text).memberTypes ∧ c.Unknown typeName := by
  rcases readFrom_cases c (.ofString text) with ⟨e, he⟩ | ⟨header, rest, raw, name, es, hl, ht, hn, hr, hq⟩
  · rw [he] at h; cases h
  · rw [hr] at h
    rw [hq] at h
    obtain ⟨es', he', ha⟩ := Reached.asks_go (Reached.start c) rest
    constructor
    · rw [(ofText_of_numberedLines hl ht).2]
      rcases Reached.mem_memberTypes_of_asked h with hs | hs
      · cases hs
      · exact mem_lineTypes_of_memberTypes hs
    · rw [he'] at h
      exact ha.unknown_of_mem h

/-- The size of a definition is recorded under the name that a quick look finds, once all questions
have been asked. -/
theorem catalog_readFrom (path : String) (h : ((readFrom (.ofString text)).run c).result = .ok d) :
    (DefinitionFile.ofText path text).recordName = some d.name ∧
      ∃ c₁, Asks c (askedTypes ((readFrom (.ofString text)).run c).events) c₁ ∧
        ((readFrom (.ofString text)).run c).state.catalog = c₁.catalog.recorded d.name d.size := by
  obtain ⟨header, rest, raw, hl, ht, hn, -, hs, hq⟩ := exists_of_readFrom_ok h
  obtain ⟨es, he, ha⟩ := Reached.asks_go (Reached.start c) rest
  refine ⟨(ofText_of_numberedLines hl ht).1.trans hn, ((Reached.start c).go rest).state.conversion, ?_, hs⟩
  rw [hq, he]
  exact ha

/-- A type that was not asked for has the size that was known before. -/
theorem elementSize_readFrom {source : Source} {f : Field} (h : ((readFrom source).run c).result = .ok d)
    (hf : f ∈ d.fields) (hp : primitiveSize? f.typeName = none)
    (hn : f.typeName ∉ askedTypes ((readFrom source).run c).events) :
    c.catalog.find? f.typeName = some f.elementSize := by
  obtain ⟨s, hs, hfields, -, hq⟩ := readFrom_invariant (P := Reached.KnownFrom c)
    (fun _ _ _ _ hs ht => ht.knownFrom hs) ⟨.nil c, fun _ hf => by cases hf⟩ h
  rw [hq] at hn
  rw [← hfields] at hf
  exact hs.2 f hf hp hn

end Conversion

end RecordLayout
