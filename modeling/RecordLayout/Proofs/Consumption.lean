import RecordLayout.Proofs.MemberTypes
import RecordLayout.Proofs.TextLines

/-!
# What a reading uses up

A definition is read from a source line by line, and no line is looked at behind the one that ends it.
`SelfContained c text` says that the last line of a text is what ends the reading of it. Such a text is
read in the same way whatever follows it in the source, which is left unread (`run_readRecord_append`);
so definitions that stand one behind the other are read as if each stood alone.
-/

namespace RecordLayout

theorem Source.exists_lines_append {text : Bytes} (h : text.getLast? = some Bytes.newline) (rest : Bytes)
    (fault : Option IoFault) :
    ∃ more, (Source.mk (text ++ rest) fault).lines = (Source.mk text none).lines ++ more := by
  cases fault with
  | none =>
    refine ⟨rest.lines.map lineText, ?_⟩
    show (text ++ rest).lines.map lineText = text.lines.map lineText ++ _
    rw [Bytes.lines_append h, List.map_append]
  | some fault =>
    refine ⟨(rest.lines.filter Bytes.isEnded).map lineText ++ [.error fault], ?_⟩
    show ((text ++ rest).lines.filter Bytes.isEnded).map lineText ++ _ = text.lines.map lineText ++ _
    rw [Bytes.lines_append h, List.filter_append, List.map_append, List.append_assoc,
      List.filter_eq_self.mpr (Bytes.isEnded_of_mem_lines h)]

theorem Source.length_le_of_drop {text : Bytes} {n : Nat} (h : (Source.mk text none |>.drop n).bytes = []) :
    text.lines.length ≤ n := by
  rw [← List.drop_eq_nil_iff]
  have hnil := List.flatten_eq_nil_iff.mp h
  by_contra hne
  obtain ⟨l, ls, hl⟩ := List.exists_cons_of_ne_nil hne
  have hmem : l ∈ text.lines.drop n := by rw [hl]; exact List.mem_cons_self
  exact Bytes.ne_nil_of_mem_lines (List.mem_of_mem_drop hmem) (hnil l hmem)

theorem Source.drop_append {text : Bytes} (h : text.getLast? = some Bytes.newline) (rest : Bytes)
    (fault : Option IoFault) : (Source.mk (text ++ rest) fault).drop text.lines.length = ⟨rest, fault⟩ := by
  show Source.mk ((text ++ rest).lines.drop text.lines.length).flatten fault = _
  rw [Bytes.lines_append h, List.drop_left, Bytes.flatten_lines]

namespace Conversion

variable {ρ : Type} [SizeSource ρ] {c : Conversion ρ}

theorem exists_numberedLines_append {text : Bytes} (h : text.getLast? = some Bytes.newline) (rest : Bytes)
    (fault : Option IoFault) :
    ∃ more, numberedLines ⟨text ++ rest, fault⟩ = numberedLines ⟨text, none⟩ ++ more := by
  obtain ⟨more, hm⟩ := Source.exists_lines_append h rest fault
  rw [numberedLines, hm, List.zipIdx_append, List.map_append]
  exact ⟨_, rfl⟩

theorem length_numberedLines (text : Bytes) : (numberedLines ⟨text, none⟩).length = text.lines.length := by
  rw [numberedLines, List.length_map, List.length_zipIdx]
  exact List.length_map _

namespace Reached

variable {s s' : Reached ρ} {l : NumberedLine} {lines lines' : List NumberedLine}
variable {o : Outcome (Reading ρ) DefinitionError (List Field)}

theorem Takes.linesRead (h : s.Takes l s') : s'.linesRead = s.linesRead + 1 := by
  cases h <;> rfl

theorem Accepts.linesRead (h : Accepts s lines s') : s'.linesRead = s.linesRead + lines.length := by
  induction h with
  | nil => rfl
  | cons ht _ ih => rw [ih, ht.linesRead, List.length_cons]; omega

theorem Stops.linesRead (h : s.Stops l o) : o.state.linesRead = s.linesRead + 1 := by
  cases h <;> rfl

theorem Accepts.split (h : Accepts s (lines ++ lines') s') :
    ∃ s₁, Accepts s lines s₁ ∧ Accepts s₁ lines' s' := by
  induction lines generalizing s with
  | nil => exact ⟨s, .nil s, h⟩
  | cons line lines ih =>
    cases h with
    | cons ht ha =>
      obtain ⟨s₁, h₁, h₂⟩ := ih ha
      exact ⟨s₁, .cons ht h₁, h₂⟩

/-- Reading members takes all lines, or it does not depend on what follows the line that stops it. -/
theorem go_append_or_accepts (s : Reached ρ) (lines : List NumberedLine) :
    (∃ s', Accepts s lines s' ∧ s.go lines = s'.go []) ∨
      (∀ more, s.go (lines ++ more) = s.go lines) ∧
        (s.go lines).state.linesRead ≤ s.linesRead + lines.length := by
  rcases go_cases s lines with h | ⟨pre, line, post, s', o, rfl, ha, hst, hg⟩
  · exact .inl h
  · refine .inr ⟨fun more => ?_, ?_⟩
    · rw [hg, List.append_assoc, go_of_accepts ha, List.cons_append, go_of_stops hst]
    · rw [hg, hst.linesRead, ha.linesRead, List.length_append, List.length_cons]
      omega

end Reached

theorem run_readLines_congr (header : NumberedLine) {rest rest' : List NumberedLine}
    (h : (Reached.start c).go rest = (Reached.start c).go rest') :
    (readLines (header :: rest)).run ⟨c, 0⟩ = (readLines (header :: rest')).run ⟨c, 0⟩ := by
  cases hl : header.text with
  | error fault => rw [run_readLines_unreadable hl, run_readLines_unreadable hl]
  | ok raw =>
    cases hn : headerName? raw with
    | none => rw [run_readLines_malformed hl hn, run_readLines_malformed hl hn]
    | some name =>
      rw [Reached.go_start, Reached.go_start] at h
      rw [readLines, readLines, Action.run_bind_ok (run_takeLine hl), Action.run_bind_ok (run_takeLine hl),
        Action.run_bind_ok (run_readHeader _ _ hn), Action.run_bind_ok (run_readHeader _ _ hn),
        Action.run_bind_ok (Action.run_log _ _ _ _), Action.run_bind_ok (Action.run_log _ _ _ _),
        show (Reading.next ⟨c, 0⟩ : Reading ρ) = ⟨c, 1⟩ from rfl, Action.run_bind, Action.run_bind, h]

/-- A reading that is not ended by a line takes all lines of its members. Otherwise it does not depend on
what follows. -/
theorem readLines_append_or_accepts (c : Conversion ρ) (header : NumberedLine) (rest : List NumberedLine) :
    (∃ raw name s, header.text = .ok raw ∧ headerName? raw = some name ∧ (Reached.start c).Accepts rest s ∧
      ((readLines (header :: rest)).run ⟨c, 0⟩).result = .ok ⟨name, s.fields⟩) ∨
    (∀ more, (readLines (header :: rest ++ more)).run ⟨c, 0⟩ = (readLines (header :: rest)).run ⟨c, 0⟩) ∧
      ((readLines (header :: rest)).run ⟨c, 0⟩).state.linesRead ≤ (header :: rest).length := by
  cases hl : header.text with
  | error fault =>
    right
    simp only [List.cons_append, run_readLines_unreadable hl, implies_true, List.length_cons, true_and]
    omega
  | ok raw =>
    cases hn : headerName? raw with
    | none =>
      right
      simp only [List.cons_append, run_readLines_malformed hl hn, implies_true, List.length_cons, true_and]
      omega
    | some name =>
      obtain ⟨es, hr, -⟩ := run_readLines_header c rest hl hn
      rcases Reached.go_append_or_accepts (Reached.start c) rest with ⟨s, ha, hg⟩ | ⟨hmore, hread⟩
      · refine .inl ⟨raw, name, s, rfl, hn, ha, ?_⟩
        rw [hr, hg, Reached.go_nil]
        rfl
      · refine .inr ⟨fun more => run_readLines_congr header (hmore more), ?_⟩
        rw [hr, List.length_cons]
        show ((Reached.start c).go rest).state.linesRead ≤ _
        exact hread.trans (Nat.add_comm 1 rest.length).le

/-- Reading a definition from a text alone uses up the text, and its last line is what ends the reading:
it is the terminator, or a blank line right behind the header, or the reading fails, which it does at the
last line that it uses. -/
structure SelfContained (c : Conversion ρ) (text : Bytes) : Prop where
  ended : text.getLast? = some Bytes.newline
  used : (readRecord.run (c, ⟨text, none⟩)).state.2.bytes = []
  last : (∃ e, (readRecord.run (c, ⟨text, none⟩)).result = .error e) ∨
    ∃ lead line raw, numberedLines ⟨text, none⟩ = lead ++ [line] ∧ line.text = .ok raw ∧
      (trimmed raw = terminator ∨ lead.length = 1 ∧ trimmed raw = "")

/-- No reading takes as a member the line that ends a self-contained text. -/
theorem Reached.Accepts.not_ended {lead : List NumberedLine} {line : NumberedLine} {s : Reached ρ} {raw : String}
    (h : (Reached.start c).Accepts (lead ++ [line]) s) (hl : line.text = .ok raw) :
    ¬(trimmed raw = terminator ∨ lead = [] ∧ trimmed raw = "") := by
  obtain ⟨s', hlead, hlast⟩ := h.split
  cases hlast with
  | cons ht _ =>
    rintro (hterm | ⟨rfl, hb⟩)
    · exact ht.content?_ne (by rw [NumberedLine.content?_of_ok hl, hterm])
    · cases hlead
      cases ht with
      | blank _ _ hf => exact hf rfl
      | field hm =>
        obtain ⟨raw', hl', rfl, -, hne⟩ := hm
        rw [hl] at hl'
        cases hl'
        exact hne hb

theorem SelfContained.run_readLines_append {text : Bytes} (h : SelfContained c text) (more : List NumberedLine) :
    (readLines (numberedLines ⟨text, none⟩ ++ more)).run ⟨c, 0⟩ =
      (readLines (numberedLines ⟨text, none⟩)).run ⟨c, 0⟩ ∧
    ((readLines (numberedLines ⟨text, none⟩)).run ⟨c, 0⟩).state.linesRead = text.lines.length := by
  have hused := Source.length_le_of_drop h.used
  have hlast : (∃ e, ((readLines (numberedLines ⟨text, none⟩)).run ⟨c, 0⟩).result = .error e) ∨ _ := h.last
  rw [← length_numberedLines] at hused ⊢
  cases hs : numberedLines ⟨text, none⟩ with
  | nil =>
    -- the text has a line, since it has a newline
    have hnil : text.lines = [] := by
      rw [← List.length_eq_zero_iff, ← length_numberedLines, hs, List.length_nil]
    have hne : text ≠ [] := by
      rintro rfl
      cases h.ended
    exact absurd hnil (Bytes.lines_ne_nil hne)
  | cons header rest =>
    rw [hs] at hused hlast
    rcases readLines_append_or_accepts c header rest with ⟨raw, name, s, hraw, hn, ha, hok⟩ | ⟨hmore, hread⟩
    · exfalso
      rcases hlast with ⟨e, he⟩ | ⟨lead, line, raw', hlines, hl, hend⟩
      · rw [hok] at he
        cases he
      · cases lead with
        | nil =>
          -- the terminator is no header
          obtain ⟨rfl, rfl⟩ := List.cons.inj hlines
          rw [hraw] at hl
          cases hl
          rcases hend with hterm | ⟨hone, -⟩
          · rw [← headerName?_trimmed, hterm, show headerName? terminator = none by decide] at hn
            cases hn
          · cases hone
        | cons first lead =>
          obtain ⟨rfl, rfl⟩ := List.cons.inj hlines
          refine ha.not_ended hl (hend.imp_right fun hb => ⟨?_, hb.2⟩)
          exact List.length_eq_zero_iff.mp (Nat.succ.inj hb.1)
    · exact ⟨hmore more, Nat.le_antisymm hread hused⟩

theorem SelfContained.run_readRecord_append {text : Bytes} (h : SelfContained c text) (rest : Bytes)
    (fault : Option IoFault) :
    readRecord.run (c, ⟨text ++ rest, fault⟩) =
      let o := readRecord.run (c, ⟨text, none⟩)
      ⟨o.result, (o.state.1, ⟨rest, fault⟩), o.events⟩ := by
  obtain ⟨more, hm⟩ := exists_numberedLines_append h.ended rest fault
  obtain ⟨hrun, hread⟩ := h.run_readLines_append more
  show Outcome.mk _ (_, Source.drop _ _) _ = Outcome.mk _ _ _
  rw [hm, hrun, hread, Source.drop_append h.ended]
  rfl

/-! ### One definition behind the other -/

/-- Reads `n` definitions in turn from one source, whether they fail or not, and gives what is left. -/
def readInTurn : Nat → Conversion ρ → Source →
    List (Outcome (Conversion ρ) DefinitionError RecordDef) × Source
  | 0, _, source => ([], source)
  | n + 1, c, source =>
    let o := readRecord.run (c, source)
    let (later, rest) := readInTurn n o.state.1 o.state.2
    (⟨o.result, o.state.1, o.events⟩ :: later, rest)

/-- Reads a definition from each text by itself, with the conversion that the one before it left. -/
def readApart : List Bytes → Conversion ρ → List (Outcome (Conversion ρ) DefinitionError RecordDef)
  | [], _ => []
  | text :: texts, c =>
    let o := (readFrom ⟨text, none⟩).run c
    o :: readApart texts o.state

/-- Each text is self-contained for the conversion that reads it. -/
def AllSelfContained : List Bytes → Conversion ρ → Prop
  | [], _ => True
  | text :: texts, c => SelfContained c text ∧ AllSelfContained texts ((readFrom ⟨text, none⟩).run c).state

theorem readInTurn_flatten {texts : List Bytes} (h : AllSelfContained texts c) (rest : Bytes)
    (fault : Option IoFault) :
    readInTurn texts.length c ⟨texts.flatten ++ rest, fault⟩ = (readApart texts c, ⟨rest, fault⟩) := by
  induction texts generalizing c with
  | nil => rfl
  | cons text texts ih =>
    have hfirst := h.1.run_readRecord_append (texts.flatten ++ rest) fault
    rw [List.flatten_cons, List.append_assoc, List.length_cons, readInTurn, hfirst]
    dsimp only
    rw [show (readRecord.run (c, ⟨text, none⟩)).state.1 = ((readFrom ⟨text, none⟩).run c).state from rfl,
      ih h.2]
    rfl

/-- A definition is read to its own last line and no further. Whatever follows a self-contained text, and
however the source ends, the reading gives the same result, conversion and events, and leaves exactly
what follows. So texts that stand one behind the other are read as if each stood by itself. -/
theorem reading_stops_behind_definition (c : Conversion ρ) :
    (∀ text, SelfContained c text → ∀ rest fault,
      readRecord.run (c, ⟨text ++ rest, fault⟩) =
        let o := readRecord.run (c, ⟨text, none⟩)
        ⟨o.result, (o.state.1, ⟨rest, fault⟩), o.events⟩) ∧
    ∀ texts, AllSelfContained texts c → ∀ rest fault,
      readInTurn texts.length c ⟨texts.flatten ++ rest, fault⟩ = (readApart texts c, ⟨rest, fault⟩) :=
  ⟨fun _ h rest fault => h.run_readRecord_append rest fault,
    fun _ h rest fault => readInTurn_flatten h rest fault⟩

/-- A definition with two-byte line ends, one that uses it and fails at its last line, a line that is not
UTF-8, and a definition ended by a blank line; then more input, and a failure of the source. -/
theorem reading_stops_behind_definition_four :
    let c : Conversion (String → Option Answer) := ⟨"", .ofEntries [], fun _ => none⟩
    let texts := [Bytes.ofString "struct A\r\nUInt8 x;\r\n\x7d;\r\n", Bytes.ofString "struct B\nA y;\nC z;\n",
      [0xff, 0x0a], Bytes.ofString "struct C\n \n"]
    let rest := Bytes.ofString "UInt8 w;\nUInt8"
    let read := readInTurn 4 c ⟨texts.flatten ++ rest, some .inputFailed⟩
    AllSelfContained texts c ∧ read.2 = ⟨rest, some .inputFailed⟩ ∧
    read.1.map (·.result) = [.ok ⟨"A", [⟨0, 1, none, "UInt8", "u8", "x", "", false, false⟩]⟩,
      .error (.unresolvableType "C" 3), .error (.io .invalidUtf8), .ok ⟨"C", []⟩] := by
  intro c texts rest read
  have hall : AllSelfContained texts c := by
    refine ⟨⟨by decide +kernel, by decide +kernel, .inr ⟨[⟨1, .ok "struct A"⟩, ⟨2, .ok "UInt8 x;"⟩],
        ⟨3, .ok terminator⟩, _, by rfl, rfl, .inl (by decide)⟩⟩,
      ⟨by decide +kernel, by decide +kernel, .inl ⟨.unresolvableType "C" 3, by decide +kernel⟩⟩,
      ⟨by decide +kernel, by decide +kernel, .inl ⟨.io .invalidUtf8, by decide +kernel⟩⟩,
      ⟨by decide +kernel, by decide +kernel, .inr ⟨[⟨1, .ok "struct C"⟩], ⟨2, .ok " "⟩, _, by rfl,
        rfl, .inr ⟨rfl, by decide⟩⟩⟩, trivial⟩
  have hread : read = (readApart texts c, ⟨rest, some .inputFailed⟩) :=
    (reading_stops_behind_definition c).2 texts hall rest (some .inputFailed)
  rw [hread]
  exact ⟨hall, rfl, by decide +kernel⟩

end Conversion

end RecordLayout
