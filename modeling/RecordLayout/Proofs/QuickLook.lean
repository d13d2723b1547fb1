import RecordLayout.Proofs.Scan

/-!
# A quick look agrees with the reading

A quick look cuts a text into words, line by line, and judges nothing. Reading the text tells the same:
it gets past the header if and only if the quick look finds a name, and then announces that name
(`head?_events_readLines`); every line that it takes as a member has the type that the quick look finds
there (`Accepts.types`).
-/

namespace RecordLayout

/-- The failure is one of the header. -/
def DefinitionError.isHeader : DefinitionError → Bool
  | .malformedHeader _ _ => true
  | _ => false

theorem DefinitionError.AtLine.isHeader {e : DefinitionError} {line : Nat} (h : e.AtLine line) :
    e.isHeader = false := by
  rcases h with h | ⟨fault, rfl⟩
  · cases e <;> first | rfl | cases h
  · rfl

namespace Conversion

variable {ρ : Type} [SizeSource ρ] {c c' : Conversion ρ} {text : String} {e : DefinitionError}

/-! ### Failures behind the header -/

theorem Reached.isHeader_go {s : Reached ρ} {lines : List NumberedLine}
    (h : (s.go lines).result = .error e) : e.isHeader = false := by
  rcases go_cases s lines with ⟨s', -, hg⟩ | ⟨pre, line, post, s', o, -, -, hst, hg⟩
  · rw [hg, go_nil] at h
    cases h
  · rw [hg] at h
    exact (hst.atLine h).isHeader

theorem Reached.result_go_ne_malformedHeader (s : Reached ρ) (lines : List NumberedLine)
    (name : String) (line : Nat) (found : String) :
    (s.go lines).result.map (RecordDef.mk name) ≠ .error (.malformedHeader line found) := by
  intro he
  cases hg : (s.go lines).result with
  | ok fields => rw [hg] at he; cases he
  | error e =>
    rw [hg] at he
    cases he
    cases isHeader_go hg

/-! ### The announcement -/

/-- What is logged once a header has given its name. -/
def announcement (name : String) : Event := .log ⟨.info, .conversion, s!"converting struct `{name}`"⟩

theorem announcement_injective : Function.Injective announcement := by
  intro name other h
  have hm : s!"converting struct `{name}`" = s!"converting struct `{other}`" :=
    (LogLine.mk.inj (Event.log.inj h)).2.2
  have hs : toString name = toString other := by
    simpa [String.toList_append, String.toList_inj] using congrArg String.toList hm
  exact hs

theorem head?_events_readLines {header : NumberedLine} {raw name : String} (rest : List NumberedLine)
    (hl : header.text = .ok raw) (hn : headerName? raw = some name) :
    ((readLines (header :: rest)).run ⟨c, 0⟩).events.head? = some (announcement name) := by
  rw [readLines, Action.run_bind_ok (run_takeLine hl), Action.run_bind_ok (run_readHeader _ _ hn),
    Action.run_bind_ok (Action.run_log _ _ _ _)]
  rfl

theorem readFrom_of_header {source : Source} {header : NumberedLine} {rest : List NumberedLine}
    {raw name : String} (hs : numberedLines source = header :: rest) (hl : header.text = .ok raw)
    (hn : headerName? raw = some name) :
    ((readFrom source).run c).events.head? = some (announcement name) ∧
      ((readFrom source).run c).result = ((Reached.start c).go rest).result.map (RecordDef.mk name) := by
  obtain ⟨es, hr, -⟩ := run_readLines_header c rest hl hn
  rw [run_readFrom, hs]
  refine ⟨head?_events_readLines rest hl hn, ?_⟩
  rw [hr]

/-! ### The types of the members -/

namespace Reached

variable {s s' : Reached ρ} {line : NumberedLine} {lines rest : List NumberedLine}

theorem Takes.types (h : s.Takes line s') (rest : List NumberedLine) :
    s.fields.map Field.typeName ++ lineTypes (line :: rest) =
      s'.fields.map Field.typeName ++ lineTypes rest := by
  cases h with
  | @blank raw hl hb hf =>
    have hnone : Text.firstToken? raw.toList = none := by
      rw [← Text.firstToken?_trim, ← toList_trimmed, hb]
      rfl
    rw [lineTypes_cons hl (by rw [hb]; decide), hnone]
    rfl
  | @field text f c es hl hr hf =>
    obtain ⟨m, t, d, hm, -, -, -, rfl⟩ := exists_of_readField hr
    obtain ⟨raw, hl, rfl, ht, -⟩ := hl
    have hfirst := firstToken?_of_ofString? hm
    rw [toList_trimmed, Text.firstToken?_trim] at hfirst
    rw [lineTypes_cons hl ht, hfirst, List.map_append, List.append_assoc]
    rfl

theorem Accepts.types (h : Accepts s lines s') (rest : List NumberedLine) :
    s.fields.map Field.typeName ++ lineTypes (lines ++ rest) =
      s'.fields.map Field.typeName ++ lineTypes rest := by
  induction h with
  | nil => rfl
  | cons ht _ ih => rw [List.cons_append, ht.types, ih]

theorem Accepts.fields_ne_nil (h : Accepts s lines s') (hs : s.fields ≠ []) : s'.fields ≠ [] :=
  h.invariant (P := fun s => s.fields ≠ []) (fun _ _ _ _ _ ht => ht.fields_ne_nil) hs

/-- Behind a line that is taken there is a field, so that without one no line was taken. -/
theorem Accepts.eq_nil (h : Accepts s lines s') (hs' : s'.fields = []) : lines = [] := by
  cases h with
  | nil => rfl
  | cons ht ha => exact absurd hs' (ha.fields_ne_nil ht.fields_ne_nil)

theorem types_go_of_not_blank {fields : List Field} (h : ((start c).go lines).result = .ok fields)
    (hb : lines.head?.bind NumberedLine.content? ≠ some "") : fields.map Field.typeName = lineTypes lines := by
  rcases go_cases (start c) lines with ⟨s', ha, hg⟩ | ⟨pre, line, post, s', o, rfl, ha, hst, hg⟩
  · rw [hg, go_nil] at h
    cases h
    have ht := ha.types []
    rw [List.append_nil] at ht
    exact ((List.append_nil _).symm.trans ht.symm).trans (List.nil_append _)
  · rw [hg] at h
    cases hst with
    | unreadable => cases h
    | refused => cases h
    | tooLarge => cases h
    | @ended raw hl he =>
      cases h
      rcases he with ht | ⟨hblank, hnil⟩
      · have hstop : lineTypes (line :: post) = [] := by
          rw [lineTypes, List.filterMap_cons_some (by rw [hl]; rfl),
            List.takeWhile_cons_of_neg (by simp [ht])]
          rfl
        have hall := ha.types (line :: post)
        rw [hstop, List.append_nil] at hall
        exact hall.symm.trans (List.nil_append _)
      · obtain rfl := ha.eq_nil hnil
        refine absurd ?_ hb
        rw [List.nil_append, List.head?_cons, Option.bind_some, NumberedLine.content?_of_ok hl, hblank]

/-- The fields that are read have the types that a quick look finds, but there are none if a blank line
follows the header. -/
theorem types_go_start {fields : List Field} (h : ((start c).go lines).result = .ok fields) :
    if lines.head?.bind NumberedLine.content? = some "" then fields = []
    else fields.map Field.typeName = lineTypes lines := by
  split
  · next hb =>
    rw [go_start_of_blank hb] at h
    cases h
    rfl
  · next hb => exact types_go_of_not_blank h hb

end Reached

theorem numberedLines_cases (text : String) :
    (DefinitionFile.textLines text = [] ∧ numberedLines (.ofString text) = []) ∨
      ∃ header rest raw, numberedLines (.ofString text) = header :: rest ∧ header.text = .ok raw ∧
        rest.head?.bind NumberedLine.content? = (DefinitionFile.textLines text)[1]?.map trimmed := by
  rw [numberedLines_ofString]
  cases DefinitionFile.textLines text with
  | nil => exact .inl ⟨rfl, rfl⟩
  | cons raw ls => exact .inr ⟨_, _, raw, rfl, rfl, by cases ls <;> rfl⟩

/-- A quick look at a text and its reading agree, whatever is known before. The quick look finds a name
if and only if the reading accepts the header with that name and announces it; it finds none if and only
if the reading refuses the header. A definition that is read has that name, and its fields have the types
that the quick look finds; but it has no field if a blank line follows the header. -/
theorem quick_look_agrees (c : Conversion ρ) (path text : String) :
    let look := DefinitionFile.ofText path text
    let reading := (readFrom (.ofString text)).run c
    (∀ name, look.recordName = some name ↔ reading.events.head? = some (announcement name)) ∧
    (look.recordName = none ↔ ∃ line found, reading.result = .error (.malformedHeader line found)) ∧
    ∀ d, reading.result = .ok d → look.recordName = some d.name ∧
      if (DefinitionFile.textLines text)[1]?.map trimmed = some "" then d.fields = []
      else d.fields.map Field.typeName = look.memberTypes := by
  intro look reading
  rcases numberedLines_cases text with ⟨hnil, hlines⟩ | ⟨header, rest, raw, hlines, hraw, hblank⟩
  · have hlook : look.recordName = none := by
      simp only [look, DefinitionFile.ofText, hnil]
      rfl
    have hrun : reading = ⟨.error (.malformedHeader 1 ""), c, []⟩ := by
      simp only [reading, run_readFrom, hlines]
      rfl
    rw [hlook, hrun]
    simp
  · obtain ⟨hname, htypes⟩ : look.recordName = headerName? raw ∧ look.memberTypes = lineTypes rest :=
      ofText_of_numberedLines hlines hraw
    rw [hname, htypes, ← hblank]
    cases hn : headerName? raw with
    | none =>
      have hrun : reading = ⟨.error (.malformedHeader header.number raw), c, []⟩ := by
        simp only [reading, run_readFrom, hlines, run_readLines_malformed hraw hn]
      rw [hrun]
      simp
    | some name =>
      obtain ⟨hevents, hresult⟩ : reading.events.head? = _ ∧ reading.result = _ :=
        readFrom_of_header hlines hraw hn
      refine ⟨fun other => ?_, ?_, fun d hd => ?_⟩
      · rw [hevents, Option.some_inj, Option.some_inj, announcement_injective.eq_iff]
      · rw [hresult]
        constructor
        · intro hnone
          cases hnone
        · rintro ⟨line, found, he⟩
          exact absurd he (Reached.result_go_ne_malformedHeader _ rest name line found)
      · rw [hresult] at hd
        cases hg : ((Reached.start c).go rest).result with
        | error e => rw [hg] at hd; cases hd
        | ok fields =>
          rw [hg] at hd
          cases hd
          exact ⟨rfl, Reached.types_go_start hg⟩

/-- Indented lines, two kinds of line ends, a wide blank on a line of its own and a member behind the
terminator. -/
theorem quick_look_agrees_ragged :
    let c : Conversion (String → Option Answer) := ⟨"", .ofEntries [("Inner", 4)], fun _ => none⟩
    let text := "\tstruct  A \r\n UInt8 x; \n\u2003\nInner y[2]; z\r\n \x7d;\nUInt8 w;"
    let d : RecordDef := ⟨"A", [⟨0, 1, none, "UInt8", "u8", "x", "", false, false⟩,
      ⟨1, 4, some 2, "Inner", "Inner", "y", "z", true, false⟩]⟩
    ((readFrom (.ofString text)).run c).result = .ok d ∧
    (DefinitionFile.ofText "a.struct" text).recordName = some "A" ∧
    ["UInt8", "Inner"] = (DefinitionFile.ofText "a.struct" text).memberTypes := by
  intro c text d
  have hd : ((readFrom (.ofString text)).run c).result = .ok d := by decide +kernel
  have hblank : (DefinitionFile.textLines text)[1]?.map trimmed ≠ some "" := by decide +kernel
  obtain ⟨hname, htypes⟩ := (quick_look_agrees c "a.struct" text).2.2 d hd
  rw [if_neg hblank] at htypes
  exact ⟨hd, hname, htypes⟩

end Conversion

end RecordLayout
