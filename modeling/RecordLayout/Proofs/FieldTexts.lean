import RecordLayout.Proofs.Printing

/-!
# The texts of a field

A field that was read has tokens for its type and its identifier and a description without blanks around
it, and it is a record exactly if its type is not built in (`IsRead.tidy`). Every field of a definition
that was read is such a field (`isRead_of_readFrom`). The name of the definition is a token as well, and no
description goes on over a line.
-/

namespace RecordLayout

theorem isToken_targetType {typeName : String} (h : IsToken typeName) : IsToken (targetType typeName) := by
  unfold targetType
  split
  case h_9 => exact h
  all_goals decide

theorem Code.isToken_codeName {f : Field} (h : IsToken f.identifier) : IsToken f.codeName := by
  unfold Field.codeName fieldName
  split_ifs
  · exact h.append (by decide)
  · exact IsToken.append (by decide) h
  · exact h

theorem MemberLine.isToken_of_ofString? {line : String} {m : MemberLine} (h : ofString? line = some m) :
    IsToken m.typeName ∧ IsToken m.declarator := by
  obtain ⟨gap, tail, hs⟩ := exists_splits_of_ofString? h
  exact ⟨⟨by simpa using hs.first_ne, hs.first_ink⟩, ⟨by simpa using hs.second_ne, hs.second_ink⟩⟩

theorem MemberLine.trimmed_description {line : String} {m : MemberLine} (h : ofString? line = some m) :
    trimmed m.description = m.description := by
  obtain ⟨gap, tail, -, hd⟩ := ofString?_eq_some_iff.mp h
  rw [trimmed, hd, Text.trim_trim, ← hd, String.ofList_toList]

theorem Text.mem_of_mem_trim {c : Char} {cs : List Char} (h : c ∈ trim cs) : c ∈ cs := by
  rw [trim, trimEnd, List.mem_reverse] at h
  have hmem := (List.dropWhile_sublist _).subset h
  exact (List.dropWhile_sublist _).subset (List.mem_reverse.mp hmem)

theorem newline_not_mem_trimmed {s : String} (h : '\n' ∉ s.toList) : '\n' ∉ (trimmed s).toList := by
  rw [toList_trimmed]
  exact fun hmem => h (Text.mem_of_mem_trim hmem)

theorem MemberLine.newline_not_mem_description {line : String} {m : MemberLine} (h : ofString? line = some m)
    (hline : '\n' ∉ line.toList) : '\n' ∉ m.description.toList := by
  obtain ⟨gap, tail, hs, hd⟩ := ofString?_eq_some_iff.mp h
  intro hmem
  rw [hd] at hmem
  have htail := Text.mem_of_mem_trim hmem
  rw [hs.eq] at hline
  exact hline (List.mem_append_right _ htail)

theorem isToken_of_headerName? {text name : String} (h : headerName? text = some name) : IsToken name := by
  unfold headerName? at h
  obtain ⟨cs, hcs, rfl⟩ := Option.map_eq_some_iff.mp h
  obtain ⟨hne, rfl⟩ := Text.nonempty?_eq_some_iff.mp hcs
  refine ⟨by simpa using hne, fun c hc => ?_⟩
  rw [String.toList_ofList] at hc
  exact Text.isBlank_of_mem_token hc

theorem Declarator.isToken_of_parsed {token : String} {line : Nat} {d : Declarator}
    (h : parsed token line = .ok d) (ht : IsToken token) : IsToken d.identifier := by
  obtain ⟨p, suffix, -, -, hsplit⟩ := Suffix.exists_isLeast_cut token.toList
  by_cases hne : token.toList.take p = []
  · rw [hne] at hsplit
    rw [parsed_of_nil hsplit] at h
    cases h
  · by_cases hr : suffix.OutOfRange
    · rw [parsed_of_outOfRange hsplit hne hr] at h
      cases h
    · rw [parsed_of_inRange hsplit hne hr] at h
      cases h
      refine ⟨by simpa using hne, fun c hc => ht.2 c ?_⟩
      rw [String.toList_ofList] at hc
      exact List.mem_of_mem_take hc

theorem Conversion.SizedBy.isRecord_iff {ρ : Type} [SizeSource ρ] {c c' : Conversion ρ} {typeName : String}
    {s : Sizing} (h : SizedBy c typeName s c') : s.isRecord = true ↔ primitiveSize? typeName = none := by
  cases h with
  | builtIn hp => simp [hp]
  | known hp => simp [hp]
  | answered hu => simp [hu.1]

namespace Field

/-- The field was read from the line of a member. -/
def IsRead (f : Field) : Prop :=
  ∃ (ρ : Type) (_ : SizeSource ρ) (c : Conversion ρ) (text : String) (line offset : Nat),
    ((Conversion.readField text line offset).run c).result = .ok f

/-- What holds of the texts of a field that was read. -/
structure Tidy (f : Field) : Prop where
  isToken_typeName : IsToken f.typeName
  target_eq : f.targetType = RecordLayout.targetType f.typeName
  isToken_identifier : IsToken f.identifier
  trimmed_description : trimmed f.description = f.description
  isRecord_iff : f.isRecord = true ↔ primitiveSize? f.typeName = none

theorem Tidy.isToken_targetType {f : Field} (h : f.Tidy) : IsToken f.targetType := by
  rw [h.target_eq]
  exact RecordLayout.isToken_targetType h.isToken_typeName

theorem IsRead.tidy {f : Field} (h : f.IsRead) : f.Tidy := by
  obtain ⟨ρ, _, c, text, line, offset, hr⟩ := h
  obtain ⟨m, s, d, hm, hs, hd, -, rfl⟩ := Conversion.exists_of_readField (Outcome.eq_of_result hr)
  obtain ⟨ht, hdecl⟩ := MemberLine.isToken_of_ofString? hm
  exact ⟨ht, rfl, Declarator.isToken_of_parsed hd hdecl, MemberLine.trimmed_description hm, hs.isRecord_iff⟩

end Field

namespace Conversion

variable {ρ : Type} [SizeSource ρ] {s s' : Reached ρ} {line : NumberedLine}

theorem Reached.Takes.isRead (h : s.Takes line s') (hs : ∀ f ∈ s.fields, f.IsRead) : ∀ f ∈ s'.fields, f.IsRead := by
  cases h with
  | blank => exact hs
  | @field text f c es hl hr hf =>
    intro g hg
    rcases List.mem_append.mp hg with hg | hg
    · exact hs g hg
    · rw [List.mem_singleton.mp hg]
      exact ⟨ρ, _, s.conversion, text, line.number, s.offset, by rw [hr]⟩

theorem newline_not_mem_text {source : Source} {text : String} (hl : line ∈ numberedLines source)
    (ht : line.Member text) : '\n' ∉ text.toList := by
  obtain ⟨raw, hraw, rfl, -, -⟩ := ht
  have hmem : .ok raw ∈ source.lines := by
    obtain ⟨⟨t, i⟩, hi, rfl⟩ := List.mem_map.mp hl
    rw [← show t = .ok raw from hraw]
    exact List.fst_mem_of_mem_zipIdx hi
  exact newline_not_mem_trimmed (Source.newline_not_mem_of_mem_lines hmem)

theorem newline_not_mem_of_readField {c c' : Conversion ρ} {text : String} {number offset : Nat} {f : Field}
    {es : List Event} (h : (readField text number offset).run c = ⟨.ok f, c', es⟩) (hn : '\n' ∉ text.toList) :
    '\n' ∉ f.description.toList := by
  obtain ⟨m, s, d, hm, -, -, -, rfl⟩ := exists_of_readField h
  exact MemberLine.newline_not_mem_description hm (newline_not_mem_trimmed hn)

theorem Reached.Takes.newline_not_mem {source : Source} (h : s.Takes line s') (hl : line ∈ numberedLines source)
    (hs : ∀ f ∈ s.fields, '\n' ∉ f.description.toList) : ∀ f ∈ s'.fields, '\n' ∉ f.description.toList := by
  cases h with
  | blank => exact hs
  | @field text f c es hm hr hf =>
    intro g hg
    rcases List.mem_append.mp hg with hg | hg
    · exact hs g hg
    · rw [List.mem_singleton.mp hg]
      exact newline_not_mem_of_readField hr (newline_not_mem_text hl hm)

theorem isToken_name_of_readFrom {c : Conversion ρ} {source : Source} {d : RecordDef}
    (h : ((readFrom source).run c).result = .ok d) : IsToken d.name := by
  obtain ⟨header, rest, raw, -, -, hn, -⟩ := exists_of_readFrom_ok h
  exact isToken_of_headerName? hn

theorem newline_not_mem_of_readFrom {c : Conversion ρ} {source : Source} {d : RecordDef}
    (h : ((readFrom source).run c).result = .ok d) : ∀ f ∈ d.fields, '\n' ∉ f.description.toList := by
  obtain ⟨s, hs, hf, -, -⟩ := readFrom_invariant (P := fun s => ∀ f ∈ s.fields, '\n' ∉ f.description.toList)
    (fun _ _ _ hl hs ht => ht.newline_not_mem hl hs) (by simp [Reached.start]) h
  rw [← hf]
  exact hs

theorem isRead_of_readFrom {c : Conversion ρ} {source : Source} {d : RecordDef}
    (h : ((readFrom source).run c).result = .ok d) : ∀ f ∈ d.fields, f.IsRead := by
  obtain ⟨s, hs, hf, -, -⟩ := readFrom_invariant (P := fun s => ∀ f ∈ s.fields, f.IsRead)
    (fun _ _ _ _ hs ht => ht.isRead hs) (by simp [Reached.start]) h
  rw [← hf]
  exact hs

end Conversion

end RecordLayout
