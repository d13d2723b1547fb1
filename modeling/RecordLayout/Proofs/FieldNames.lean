import RecordLayout.Proofs.Imports
import Mathlib.Data.List.Nodup

/-!
# Field names

In record code a keyword is escaped, so no field is named by one (`not_isKeyword_fieldName`). Any other identifier is a
name as it stands, also one that is spelled like an escape. Two different identifiers therefore get one name exactly if
one of them is the escape of the other (`fieldName_eq_iff`). The structure and its default value name the fields in this
way and in their order (`labels_structLines`, `labels_defaultLines`).
-/

namespace RecordLayout.Code

/-! ### Keywords and their escapes -/

def IsKeyword (s : String) : Prop := s ∈ keywords ∨ s ∈ pathKeywords

/-- The keyword `word` is written as `name`. -/
def Escapes (word name : String) : Prop :=
  word ∈ pathKeywords ∧ name = word ++ "_" ∨ word ∈ keywords ∧ name = "r#" ++ word

instance (s : String) : Decidable (IsKeyword s) := inferInstanceAs (Decidable (_ ∨ _))

instance (word name : String) : Decidable (Escapes word name) := inferInstanceAs (Decidable (_ ∨ _))

variable {a b word word' name : String}

theorem not_mem_pathKeywords (h : word ∈ keywords) : word ∉ pathKeywords := by
  have hall : ∀ w ∈ keywords, w ∉ pathKeywords := by decide +kernel
  exact hall word h

theorem hash_not_mem (h : IsKeyword word) : '#' ∉ word.toList := by
  have hall : ∀ w ∈ keywords ++ pathKeywords, '#' ∉ w.toList := by decide +kernel
  exact hall word (List.mem_append.mpr h)

theorem fieldName_of_not_isKeyword (h : ¬IsKeyword a) : fieldName a = a := by
  obtain ⟨hk, hp⟩ := not_or.mp h
  rw [fieldName, if_neg (by simpa using hp), if_neg (by simpa using hk)]

namespace Escapes

theorem isKeyword (h : Escapes word name) : IsKeyword word := h.symm.imp And.left And.left

theorem fieldName_eq (h : Escapes word name) : fieldName word = name := by
  rcases h with ⟨hp, rfl⟩ | ⟨hk, rfl⟩
  · exact if_pos (by simpa using hp)
  · have hp := not_mem_pathKeywords hk
    rw [fieldName, if_neg (by simpa using hp), if_pos (by simpa using hk)]

theorem not_isKeyword (h : Escapes word name) : ¬IsKeyword name := by
  rcases h with ⟨hp, rfl⟩ | ⟨-, rfl⟩
  · have hall : ∀ w ∈ pathKeywords, ¬IsKeyword (w ++ "_") := by decide +kernel
    exact hall word hp
  · intro hname
    exact hash_not_mem hname (by simp)

theorem unique (h : Escapes word name) (h' : Escapes word' name) : word = word' := by
  -- of the two kinds of escapes only one has a `#`
  have hmixed {w v : String} (hw : w ∈ pathKeywords) : w ++ "_" ≠ "r#" ++ v := by
    intro heq
    have hmem : '#' ∈ (w ++ "_").toList := by rw [heq]; simp
    rw [String.toList_append, List.mem_append] at hmem
    exact hmem.elim (hash_not_mem (.inr hw)) (by decide)
  rcases h with ⟨hp, rfl⟩ | ⟨hk, rfl⟩
  · rcases h' with ⟨-, heq⟩ | ⟨-, heq⟩
    · exact (String.append_left_inj _).mp heq
    · exact absurd heq (hmixed hp)
  · rcases h' with ⟨hp, heq⟩ | ⟨-, heq⟩
    · exact absurd heq.symm (hmixed hp)
    · exact (String.append_right_inj _).mp heq

end Escapes

theorem escapes_fieldName (h : IsKeyword word) : Escapes word (fieldName word) := by
  rcases h with hk | hp
  · have hraw : Escapes word ("r#" ++ word) := .inr ⟨hk, rfl⟩
    rwa [hraw.fieldName_eq]
  · have hlong : Escapes word (word ++ "_") := .inl ⟨hp, rfl⟩
    rwa [hlong.fieldName_eq]

theorem not_isKeyword_fieldName (a : String) : ¬IsKeyword (fieldName a) := by
  by_cases ha : IsKeyword a
  · exact (escapes_fieldName ha).not_isKeyword
  · rwa [fieldName_of_not_isKeyword ha]

/-- Two identifiers with one name: a keyword, and an identifier that is spelled like its escape. -/
theorem fieldName_eq_iff : fieldName a = fieldName b ↔ a = b ∨ Escapes a b ∨ Escapes b a := by
  constructor
  · intro h
    by_cases ha : IsKeyword a
    · -- the name of `b` is an escape, so `b` has become it or is spelled like it
      have hesc := escapes_fieldName ha
      rw [h] at hesc
      by_cases hb : IsKeyword b
      · exact .inl (hesc.unique (escapes_fieldName hb))
      · rw [fieldName_of_not_isKeyword hb] at hesc
        exact .inr (.inl hesc)
    · rw [fieldName_of_not_isKeyword ha] at h
      by_cases hb : IsKeyword b
      · exact .inr (.inr (h ▸ escapes_fieldName hb))
      · exact .inl (h.trans (fieldName_of_not_isKeyword hb))
  · have hname {w n : String} (h : Escapes w n) : fieldName w = fieldName n :=
      h.fieldName_eq.trans (fieldName_of_not_isKeyword h.not_isKeyword).symm
    rintro (rfl | h | h)
    · rfl
    · exact hname h
    · exact (hname h).symm

theorem nodup_codeNames_iff {fields : List Field} (h : (fields.map Field.identifier).Nodup) :
    (fields.map Field.codeName).Nodup ↔ ∀ f ∈ fields, ∀ g ∈ fields, ¬Escapes f.identifier g.identifier := by
  rw [List.nodup_map_iff_inj_on (h.of_map _)]
  constructor
  · intro hinj f hf g hg hesc
    have hfg : f = g := hinj f hf g hg (fieldName_eq_iff.mpr (.inr (.inl hesc)))
    -- but no keyword is its own escape
    rw [hfg] at hesc
    exact hesc.not_isKeyword hesc.isKeyword
  · intro hno f hf g hg hname
    rcases fieldName_eq_iff.mp hname with heq | hesc | hesc
    · exact List.inj_on_of_nodup_map h hf hg heq
    · exact absurd hesc (hno f hf g hg)
    · exact absurd hesc (hno g hg f hf)

/-! ### Names in the text -/

/-- The name to which a line that starts with `front` gives a type or a value: its next token, without the colon. -/
def label? (front line : String) : Option String :=
  (line.toList.dropPrefix? front.toList).map fun cs => .ofList (Text.token cs).dropLast

def labels (front : String) (ls : List String) : List String := ls.filterMap (label? front)

theorem label?_append (h : IsToken name) (front rest : String) :
    label? front (front ++ (name ++ ": " ++ rest)) = some name := by
  have hink : ∀ c ∈ (name ++ ":").toList, isBlank c = false := (h.append (by decide)).2
  have htoken : Text.token (name ++ ": " ++ rest).toList = name.toList ++ [':'] := by
    have hsplit : (name ++ ": " ++ rest).toList = (name ++ ":").toList ++ ' ' :: rest.toList := by simp
    rw [hsplit, (Text.token_append hink (by simp [isBlank])).1, String.toList_append]
    rfl
  rw [label?, String.toList_append, List.dropPrefix?_append_of_beq _ BEq.rfl, Option.map_some, htoken,
    List.dropLast_concat, String.ofList_toList]

theorem labels_append (front : String) (ls ls' : List String) :
    labels front (ls ++ ls') = labels front ls ++ labels front ls' := List.filterMap_append

theorem labels_intercalate {front : String} (h : label? front "" = none) (parts : List (List String)) :
    labels front ([""].intercalate parts) = parts.flatMap (labels front) := by
  have hempty : labels front [""] = [] := List.filterMap_cons_none h
  induction parts with
  | nil => rfl
  | cons part rest ih =>
    cases rest with
    | nil => simp
    | cons next rest =>
      rw [List.intercalate_cons_cons, labels_append, labels_append, ih, hempty, List.append_nil, ← List.flatMap_cons]

theorem labels_fieldLines {f : Field} (h : IsToken f.identifier) : labels "    pub " (fieldLines f) = [f.codeName] := by
  have hline : indent 1 (s!"pub {f.codeName}: " ++ fieldType f ++ ",") =
      "    pub " ++ (f.codeName ++ ": " ++ (fieldType f ++ ",")) := by
    simp only [indent, toString, String.append_assoc]
    rw [if_neg (by simp), ← String.append_assoc]
    rfl
  have hname : labels "    pub " ["    pub " ++ (f.codeName ++ ": " ++ (fieldType f ++ ","))] = [f.codeName] :=
    List.filterMap_cons_some (label?_append (isToken_codeName h) _ _)
  have hdesc : label? "    pub " (indent 1 ("/// " ++ f.description)) = none := by
    simp [indent, label?, List.dropPrefix?]
  rw [fieldLines, labels_append, hline, hname]
  split
  · rfl
  · rw [labels, List.filterMap_cons_none hdesc]
    rfl

theorem labels_structLines {d : RecordDef} (h : ∀ f ∈ d.fields, IsToken f.identifier) :
    labels "    pub " (structLines d) = d.fields.map Field.codeName := by
  have hfirst : labels "    pub " ["#[allow(non_snake_case, non_camel_case_types)]",
      "#[derive(Debug, Clone, PartialEq, Eq)]", s!"pub struct {d.name} \x7b"] = [] := by
    simp only [labels, List.filterMap_eq_nil_iff, List.forall_mem_cons]
    exact ⟨by decide, by decide, by simp [label?, toString, List.dropPrefix?], nofun⟩
  have hfields : (d.fields.map fieldLines).flatMap (labels "    pub ") = d.fields.map Field.codeName := by
    rw [List.flatMap_map, List.map_eq_flatMap]
    exact List.flatMap_congr fun f hf => labels_fieldLines (h f hf)
  have hlast : labels "    pub " ["\x7d"] = [] := by decide
  rw [structLines, labels_append, labels_append, hfirst, labels_intercalate (by decide), hfields, hlast,
    List.nil_append, List.append_nil]

theorem labels_defaultLines {d : RecordDef} (h : ∀ f ∈ d.fields, IsToken f.identifier) :
    labels "            " (defaultLines d) = d.fields.map Field.codeName := by
  have hfirst : labels "            " [s!"impl Default for {d.name} \x7b", indent 1 "fn default() -> Self \x7b",
      indent 2 "Self \x7b"] = [] := by
    simp only [labels, List.filterMap_eq_nil_iff, List.forall_mem_cons]
    exact ⟨by simp [label?, toString, List.dropPrefix?], by decide, by decide, nofun⟩
  have hline (f : Field) : indent 3 (s!"{f.codeName}: " ++ defaultValue f ++ ",") =
      "            " ++ (f.codeName ++ ": " ++ (defaultValue f ++ ",")) := by
    simp [indent, toString, String.append_assoc]
  have hfields : labels "            " (d.fields.map fun f => indent 3 (s!"{f.codeName}: " ++ defaultValue f ++ ",")) =
      d.fields.map Field.codeName := by
    rw [labels, List.filterMap_map, List.filterMap_eq_map_iff_forall_eq_some]
    intro f hf
    rw [Function.comp_apply, hline]
    exact label?_append (isToken_codeName (h f hf)) _ _
  have hlast : labels "            " [indent 2 "\x7d", indent 1 "\x7d", "\x7d"] = [] := by decide
  rw [defaultLines, labels_append, labels_append, hfirst, hfields, hlast, List.nil_append, List.append_nil]

/-- No field is named by a keyword. Fields whose identifiers differ have names that differ if and only if no identifier
is the escape of another one. Where the identifiers are tokens, as they are in what was read, the structure and its
default value have just these names. -/
theorem field_names_distinct_iff (d : RecordDef) (hids : (d.fields.map Field.identifier).Nodup) :
    let names := d.fields.map Field.codeName
    (∀ name ∈ names, ¬IsKeyword name) ∧
      (names.Nodup ↔ ∀ f ∈ d.fields, ∀ g ∈ d.fields, ¬Escapes f.identifier g.identifier) ∧
      ((∀ f ∈ d.fields, IsToken f.identifier) →
        labels "    pub " (structLines d) = names ∧ labels "            " (defaultLines d) = names) := by
  intro names
  refine ⟨fun name hname => ?_, nodup_codeNames_iff hids, fun h => ⟨labels_structLines h, labels_defaultLines h⟩⟩
  obtain ⟨f, -, rfl⟩ := List.mem_map.mp hname
  exact not_isKeyword_fieldName f.identifier

/-- Each kind of keyword can stand beside the escape that the other kind would have. -/
theorem field_names_distinct_keywords :
    let field (offset : Nat) (identifier : String) : Field :=
      ⟨offset, 1, none, "UInt8", "u8", identifier, "", false, false⟩
    let d : RecordDef :=
      ⟨"Lock", [field 0 "self", field 1 "r#self", field 2 "type", field 3 "type_", field 4 "_"]⟩
    ((Conversion.readFrom (.ofString ("struct Lock\nUInt8 self;\nUInt8 r#self;\nUInt8 type;\n" ++
      "UInt8 type_;\nUInt8 _;\n\x7d;\n"))).run Samples.conversion).result = .ok d ∧
    (d.fields.map Field.codeName).Nodup ∧
    labels "    pub " (structLines d) = ["self_", "r#self", "r#type", "type_", "__"] := by
  intro field d
  obtain ⟨-, hdistinct, hlabels⟩ := field_names_distinct_iff d (by decide +kernel)
  refine ⟨by decide +kernel, hdistinct.mpr (by decide +kernel), ?_⟩
  rw [(hlabels (by decide +kernel)).1]
  decide +kernel

/-- A keyword and an identifier that is spelled like its escape: the structure has two fields of one name. -/
theorem field_names_collide_self :
    let field (offset : Nat) (identifier : String) : Field :=
      ⟨offset, 1, none, "UInt8", "u8", identifier, "", false, false⟩
    let d : RecordDef := ⟨"Lock", [field 0 "self", field 1 "self_"]⟩
    ((Conversion.readFrom (.ofString "struct Lock\nUInt8 self;\nUInt8 self_;\n\x7d;\n")).run
      Samples.conversion).result = .ok d ∧
    (d.fields.map Field.identifier).Nodup ∧ ¬(d.fields.map Field.codeName).Nodup ∧
    labels "    pub " (structLines d) = ["self_", "self_"] := by
  decide +kernel

end RecordLayout.Code
