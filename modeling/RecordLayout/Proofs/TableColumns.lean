import RecordLayout.FieldTable
import RecordLayout.Proofs.FieldTexts

/-!
# Columns of the layout table

Every cell is padded to the width of its column, so that all lines are equally long until their ends are
trimmed (`length_padded`). Of the line of a field that was read only spaces are trimmed
(`exists_spaces`): padding restores it, and each column can be cut out of it again. Trimming would eat
into the columns if an identifier could be blank or a description could end in a blank.
-/

namespace RecordLayout

theorem IsToken.trimmed_eq {s : String} (h : IsToken s) : trimmed s = s := by
  have hstart := h.trimStart_append []
  have hend := h.trimEnd_append []
  rw [List.append_nil] at hstart
  rw [List.nil_append] at hend
  rw [trimmed, Text.trim, hstart, hend, String.ofList_toList]

theorem Text.trimEnd_append_spaces {cs : List Char} (h : trimEnd cs = cs) (n : Nat) :
    trimEnd (cs ++ List.replicate n ' ') = cs := by
  have hspaces : trimEnd (List.replicate n ' ') = [] := by
    rw [trimEnd, List.reverse_eq_nil_iff, List.dropWhile_eq_nil_iff]
    simp [isBlank]
  rw [trimEnd_append, if_pos hspaces, h]

theorem Field.isToken_sizeCell (f : Field) : IsToken f.sizeCell := by
  unfold sizeCell
  split
  · next n _ => exact ((isToken_toString f.elementSize).append (by decide)).append (isToken_toString n)
  · exact isToken_toString f.elementSize

theorem Field.Tidy.isToken_typeCell {f : Field} (h : f.Tidy) : IsToken f.typeCell := by
  unfold typeCell
  split
  · next n _ => exact ((h.isToken_targetType.append (by decide)).append (isToken_toString n)).append (by decide)
  · exact h.isToken_targetType

namespace Column

theorem trimmed_cell {f : Field} (h : f.Tidy) (c : Column) : trimmed (c.cell f) = c.cell f := by
  cases c with
  | offset => exact (isToken_toString f.offset).trimmed_eq
  | size => exact f.isToken_sizeCell.trimmed_eq
  | type => exact h.isToken_typeCell.trimmed_eq
  | identifier => exact h.isToken_identifier.trimmed_eq
  | description => exact h.trimmed_description

theorem exists_all_append (c : Column) : ∃ rest, all = all.takeWhile (· ≠ c) ++ c :: rest := by
  cases c <;> exact ⟨_, rfl⟩

/-- Each of several cells is found in the text that joins them, and what follows it is a space. -/
theorem exists_drop_intercalate (cell : Column → List Char) (front rest : List Column) (c : Column) :
    ∃ tail, ([' '].intercalate ((front ++ c :: rest).map cell)).drop ((front.map fun c => (cell c).length + 1).sum) =
      cell c ++ tail ∧ ∀ x ∈ tail.head?, x = ' ' := by
  induction front with
  | nil =>
    rcases rest with _ | ⟨c', rest⟩
    · exact ⟨[], by simp, by simp⟩
    · refine ⟨' ' :: [' '].intercalate ((c' :: rest).map cell), ?_, by simp⟩
      simp [List.intercalate_cons_cons]
  | cons c' front ih =>
    have hne : (front ++ c :: rest).map cell ≠ [] := by simp
    simp only [List.cons_append, List.map_cons, List.sum_cons]
    rw [List.intercalate_cons_of_ne_nil hne, ← List.drop_drop, List.drop_left' (by simp)]
    exact ih

end Column

namespace FieldTable

variable {fields : List Field} {f : Field}

theorem length_padRight {w : Nat} {s : String} (h : s.length ≤ w) : (padRight w s).length = w := by
  simp [padRight, spaces, h]

theorem length_padLeft {w : Nat} {s : String} (h : s.length ≤ w) : (padLeft w s).length = w := by
  simp [padLeft, spaces, h]

theorem le_foldl_max (l : List Field) (g : Field → Nat) (n : Nat) :
    n ≤ l.foldl (fun w f => max w (g f)) n ∧ ∀ f ∈ l, g f ≤ l.foldl (fun w f => max w (g f)) n := by
  induction l generalizing n with
  | nil => simp
  | cons x l ih =>
    obtain ⟨hmax, hall⟩ := ih (max n (g x))
    rw [List.foldl_cons]
    refine ⟨(Nat.le_max_left _ _).trans hmax, fun f hf => ?_⟩
    rcases List.mem_cons.mp hf with rfl | hf
    · exact (Nat.le_max_right _ _).trans hmax
    · exact hall f hf

theorem title_le_width (fields : List Field) (c : Column) : c.title.length ≤ width fields c :=
  (le_foldl_max fields (fun f => (c.cell f).length) c.title.length).1

theorem cell_le_width (h : f ∈ fields) (c : Column) : (c.cell f).length ≤ width fields c :=
  (le_foldl_max fields (fun f => (c.cell f).length) c.title.length).2 f h

/-- A line with its five cells, before its end is trimmed. -/
def padded (cells : Column → String) : List Char := [' '].intercalate (Column.all.map fun c => (cells c).toList)

theorem toList_line (cells : Column → String) : (line (Column.all.map cells)).toList = Text.trimEnd (padded cells) := by
  rw [line, trimmedEnd, String.toList_ofList, String.toList_intercalate, List.map_map]
  rfl

theorem length_padded {cells : Column → String} (h : ∀ c, (cells c).length = width fields c) :
    (padded cells).length = totalWidth fields := by
  simp only [padded, Column.all, totalWidth, List.map_cons, List.map_nil, List.intercalate_cons_cons,
    List.intercalate_singleton, List.length_append, String.length_toList, h, List.length_cons, List.length_nil,
    List.foldl_cons, List.foldl_nil]
  omega

theorem length_line_le {cells : Column → String} (h : ∀ c, (cells c).length = width fields c) :
    (line (Column.all.map cells)).length ≤ totalWidth fields := by
  obtain ⟨bs, hbs, -⟩ := Text.exists_trimEnd_append (padded cells)
  have hlen := congrArg List.length hbs
  rw [length_padded h, List.length_append] at hlen
  rw [← String.length_toList, toList_line]
  omega

/-- The cell of a field with its padding. -/
def fieldCell (fields : List Field) (f : Field) (c : Column) : String :=
  if c.isNumeric then padLeft (width fields c) (c.cell f) else padRight (width fields c) (c.cell f)

theorem length_fieldCell (h : f ∈ fields) (c : Column) : (fieldCell fields f c).length = width fields c := by
  unfold fieldCell
  split
  · exact length_padLeft (cell_le_width h c)
  · exact length_padRight (cell_le_width h c)

theorem trimmed_fieldCell (fields : List Field) (f : Field) (c : Column) :
    trimmed (fieldCell fields f c) = trimmed (c.cell f) := by
  have hspaces : ∀ n, ∀ b ∈ List.replicate n ' ', isBlank b = true := by
    intro n b hb
    rw [List.eq_of_mem_replicate hb]
    decide
  unfold fieldCell
  split
  · rw [trimmed, padLeft, spaces, String.toList_append, String.toList_ofList, Text.trim,
      Text.trimStart_append_of_blank (hspaces _), ← Text.trim, trimmed]
  · rw [trimmed, padRight, spaces, String.toList_append, String.toList_ofList,
      Text.trim_append_of_blank (hspaces _), trimmed]

/-- The end of the line of a field: its identifier and its description, each with spaces behind it. -/
theorem exists_padded_eq (fields : List Field) (f : Field) :
    ∃ front n m, padded (fieldCell fields f) =
      front ++ f.identifier.toList ++ List.replicate (n + 1) ' ' ++ f.description.toList ++ List.replicate m ' ' := by
  refine ⟨[' '].intercalate ([.offset, .size, .type].map fun c => (fieldCell fields f c).toList) ++ [' '],
    width fields .identifier - f.identifier.length, width fields .description - f.description.length, ?_⟩
  simp only [padded, Column.all, List.map_cons, List.map_nil, List.intercalate_cons_cons, List.intercalate_singleton,
    List.append_assoc, List.append_cancel_left_eq]
  simp only [fieldCell, Column.isNumeric, Bool.false_eq_true, ↓reduceIte, padRight, spaces, String.toList_append,
    String.toList_ofList, Column.cell, List.append_assoc, List.replicate_succ']

theorem exists_spaces (h : f.Tidy) (fields : List Field) :
    ∃ n, padded (fieldCell fields f) = Text.trimEnd (padded (fieldCell fields f)) ++ List.replicate n ' ' := by
  obtain ⟨front, n, m, hp⟩ := exists_padded_eq fields f
  by_cases hd : f.description = ""
  · -- the line ends with the identifier
    have hend := h.isToken_identifier.trimEnd_append front
    have hp' : padded (fieldCell fields f) =
        front ++ f.identifier.toList ++ List.replicate (n + 1 + m) ' ' := by
      rw [hp, hd, List.replicate_add (n + 1) m]
      simp only [String.toList_empty, List.append_nil, List.append_assoc]
    exact ⟨n + 1 + m, by rw [hp', Text.trimEnd_append_spaces hend]⟩
  · -- the line ends with the description, whose last character is not blank
    have hdesc : Text.trimEnd f.description.toList = f.description.toList := by
      have ht := congrArg String.toList h.trimmed_description
      rw [toList_trimmed] at ht
      rw [← ht, Text.trim, Text.trimEnd_trimEnd]
    have hend : ∀ cs, Text.trimEnd (cs ++ f.description.toList) = cs ++ f.description.toList := by
      intro cs
      rw [Text.trimEnd_append, hdesc, if_neg (by simpa using hd)]
    exact ⟨m, by rw [hp, Text.trimEnd_append_spaces (hend _)]⟩

theorem padRight_fieldLine (hf : f ∈ fields) (h : f.Tidy) :
    (padRight (totalWidth fields) (fieldLine fields f)).toList = padded (fieldCell fields f) := by
  have hline : (fieldLine fields f).toList = Text.trimEnd (padded (fieldCell fields f)) := toList_line _
  obtain ⟨n, hn⟩ := exists_spaces h fields
  have hlen := congrArg List.length hn
  rw [length_padded (length_fieldCell hf), List.length_append, List.length_replicate, ← hline,
    String.length_toList] at hlen
  rw [padRight, spaces, String.toList_append, String.toList_ofList, hlen, Nat.add_sub_cancel_left, hline]
  exact hn.symm

/-- Where a column starts: behind the columns in front of it and a separator behind each of them. -/
def start (fields : List Field) (c : Column) : Nat :=
  ((Column.all.takeWhile (· ≠ c)).map fun c' => width fields c' + 1).sum

/-- A line from a column on, once it has its full width again. -/
def fromColumn (fields : List Field) (line : String) (c : Column) : List Char :=
  (padRight (totalWidth fields) line).toList.drop (start fields c)

/-- What a line shows in a column. -/
def shown (fields : List Field) (line : String) (c : Column) : String :=
  trimmed (String.ofList ((fromColumn fields line c).take (width fields c)))

theorem exists_fromColumn_eq (hf : f ∈ fields) (h : f.Tidy) (c : Column) :
    ∃ tail, fromColumn fields (fieldLine fields f) c = (fieldCell fields f c).toList ++ tail ∧
      ∀ x ∈ tail.head?, x = ' ' := by
  obtain ⟨rest, hall⟩ := c.exists_all_append
  have hcut := Column.exists_drop_intercalate (fun c => (fieldCell fields f c).toList) (Column.all.takeWhile (· ≠ c))
    rest c
  simp only [String.length_toList, length_fieldCell hf] at hcut
  rw [← hall] at hcut
  rw [fromColumn, padRight_fieldLine hf h]
  exact hcut

theorem shown_fieldLine (hf : f ∈ fields) (h : f.Tidy) (c : Column) :
    shown fields (fieldLine fields f) c = c.cell f := by
  obtain ⟨tail, htail, -⟩ := exists_fromColumn_eq hf h c
  have hlen : (fieldCell fields f c).toList.length = width fields c := length_fieldCell hf c
  rw [shown, htail, List.take_left' hlen, String.ofList_toList, trimmed_fieldCell, Column.trimmed_cell h]

theorem separator_fieldLine (hf : f ∈ fields) (h : f.Tidy) (c : Column) :
    ∀ x ∈ (fromColumn fields (fieldLine fields f) c)[width fields c]?, x = ' ' := by
  obtain ⟨tail, htail, hhead⟩ := exists_fromColumn_eq hf h c
  have hlen : (fieldCell fields f c).toList.length = width fields c := length_fieldCell hf c
  rw [htail, List.getElem?_append_right (Nat.le_of_eq hlen), hlen, Nat.sub_self, ← List.head?_eq_getElem?]
  exact hhead

/-- The layout table is aligned and can be read back. Its second line is a rule of the full width, and no line is
longer. If the fields were read from member lines, then the line of each of them, padded to the full width again
and cut where the columns start, shows the five cells of the field, and a space behind each but the last. -/
theorem table_reads_back (fields : List Field) :
    (lines fields).length = fields.length + 2 ∧
    (lines fields)[1]? = some (String.ofList (List.replicate (totalWidth fields) '-')) ∧
    (∀ line ∈ lines fields, line.length ≤ totalWidth fields) ∧
    ((∀ f ∈ fields, f.IsRead) → ∀ i f, fields[i]? = some f →
      ∃ line, (lines fields)[i + 2]? = some line ∧
        ∀ c, shown fields line c = c.cell f ∧ ∀ x ∈ (fromColumn fields line c)[width fields c]?, x = ' ') := by
  refine ⟨by simp [lines], rfl, ?_, ?_⟩
  · intro line hline
    simp only [lines, List.mem_cons, List.mem_map] at hline
    rcases hline with rfl | rfl | ⟨f, hf, rfl⟩
    · exact length_line_le fun c => length_padRight (title_le_width fields c)
    · simp [rule]
    · exact length_line_le (length_fieldCell hf)
  · intro hread i f hi
    have hf := List.mem_of_getElem? hi
    have htidy := (hread f hf).tidy
    exact ⟨fieldLine fields f, by simp [lines, hi],
      fun c => ⟨shown_fieldLine hf htidy c, separator_fieldLine hf htidy c⟩⟩

/-- An array without a description, and a description with blanks of its own: the first line of a field ends with its
identifier, the second one is as long as the rule. -/
theorem table_reads_back_blanks :
    let c : Conversion (String → Option Answer) := ⟨"", .empty, fun _ => none⟩
    let flags : Field := ⟨0, 1, some 4, "Char", "u8", "flags", "", false, false⟩
    let stamp : Field := ⟨4, 8, none, "be64", "i64", "stamp", "time\tof \u3000 day", false, false⟩
    ((Conversion.readField "Char flags[4];" 2 0).run c).result = .ok flags ∧
    ((Conversion.readField "be64 stamp; time\tof \u3000 day " 3 4).run c).result = .ok stamp ∧
    lines [flags, stamp] = ["Offset Size Type  Identifier Description", "------------------------------------------",
      "     0  1*4 u8[4] flags", "     4    8 i64   stamp      time\tof \u3000 day"] ∧
    shown [flags, stamp] "     0  1*4 u8[4] flags" .description = "" ∧
    shown [flags, stamp] "     4    8 i64   stamp      time\tof \u3000 day" .identifier = "stamp" := by
  intro c flags stamp
  have h₁ : ((Conversion.readField "Char flags[4];" 2 0).run c).result = .ok flags := by decide +kernel
  have h₂ : ((Conversion.readField "be64 stamp; time\tof \u3000 day " 3 4).run c).result = .ok stamp := by
    decide +kernel
  have hread : ∀ f ∈ [flags, stamp], f.IsRead := by
    simp only [List.forall_mem_cons]
    exact ⟨⟨_, inferInstance, c, _, _, _, h₁⟩, ⟨_, inferInstance, c, _, _, _, h₂⟩, by simp⟩
  have hlines : lines [flags, stamp] =
      ["Offset Size Type  Identifier Description", "------------------------------------------",
        "     0  1*4 u8[4] flags", "     4    8 i64   stamp      time\tof \u3000 day"] := by decide +kernel
  obtain ⟨-, -, -, hshown⟩ := table_reads_back [flags, stamp]
  obtain ⟨line₁, hline₁, hcells₁⟩ := hshown hread 0 flags rfl
  obtain ⟨line₂, hline₂, hcells₂⟩ := hshown hread 1 stamp rfl
  rw [hlines] at hline₁ hline₂
  cases hline₁
  cases hline₂
  exact ⟨h₁, h₂, hlines, (hcells₁ .description).1, (hcells₂ .identifier).1⟩

end FieldTable

end RecordLayout
