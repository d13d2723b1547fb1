import RecordLayout.Proofs.CodeGrammar

/-!
# Record code as a program

The text of record code behind its layout comment is read as a program: the fields of the structure, its size,
and the statements that read and write the fields, one of each for every field and in their order. What is
written for a definition is read as the fields and statements that it was written from (`run_program`), if its
names are tokens and its descriptions keep to their lines.
-/

namespace RecordLayout

namespace CodeGrammar

open Pattern Code

/-- A line of which all is known. -/
def known (line : String) : Pattern Unit := next (fixed line)

def blankLine : Pattern Unit := fixed "\n"

def structureHeader : Pattern String := do
  fixed "pub struct "
  let name ← word "" ""
  fixed " \x7b"
  return name

/-- The name of a structure and its fields. -/
def structureItem : Pattern (String × List Declared) := do
  fixed "#[allow(non_snake_case, non_camel_case_types)]"
  known "#[derive(Debug, Clone, PartialEq, Eq)]"
  let name ← next structureHeader
  let fields ← many declaration
  known "\x7d"
  return (name, fields)

/-- The size of a structure. -/
def sizeItem (name : String) : Pattern Nat := do
  blankLine
  known ("impl " ++ (name ++ " \x7b"))
  let size ← next (between "pub const STRUCT_SIZE: usize = " ";" natural)
  known "\x7d"
  return size

/-- How a field starts out. -/
def defaultLine (f : Declared) : String :=
  let value := if f.count.isSome then "std::array::from_fn(|_| Default::default())" else "Default::default()"
  f.name ++ (": " ++ (value ++ ","))

def defaultItem (name : String) (fields : List Declared) : Pattern Unit := do
  blankLine
  known ("impl Default for " ++ (name ++ " \x7b"))
  known "fn default() -> Self \x7b"
  known "Self \x7b"
  let _ ← fields.mapM fun f => known (defaultLine f)
  known "\x7d"
  known "\x7d"
  known "\x7d"

/-- The statements that read the fields. -/
def readFunction (fields : List Declared) : Pattern (List ReadStatement) := do
  known "fn read_from(&mut self, buffer: &[u8], offset: usize) -> usize \x7b"
  let reads ← fields.mapM fun f => next (readStatement f.name)
  known "Self::STRUCT_SIZE"
  known "\x7d"
  return reads

/-- The statements that write the fields. -/
def writeFunction (fields : List Declared) : Pattern (List WriteStatement) := do
  blankLine
  known "fn write_to(&self, buffer: &mut [u8], offset: usize) \x7b"
  let writes ← fields.mapM fun f => next (writeStatement f.name)
  known "\x7d"
  return writes

def sizeFunction : Pattern Unit := do
  blankLine
  known "fn size(&self) -> usize \x7b"
  known "Self::STRUCT_SIZE"
  known "\x7d"

def recordItem (name : String) (fields : List Declared) : Pattern (List ReadStatement × List WriteStatement) := do
  blankLine
  let _ ← optional (known "#[allow(unused_variables)]")
  known ("impl BinaryRecord for " ++ (name ++ " \x7b"))
  let reads ← readFunction fields
  let writes ← writeFunction fields
  sizeFunction
  known "\x7d"
  return (reads, writes)

end CodeGrammar

/-- Record code as it is read. -/
structure Code.Program where
  fields : List Code.Declared
  size : Nat
  reads : List Code.ReadStatement
  writes : List Code.WriteStatement
  deriving DecidableEq, Repr

namespace CodeGrammar

open Pattern Code

def program : Pattern Program := do
  let (name, fields) ← structureItem
  let size ← sizeItem name
  defaultItem name fields
  let (reads, writes) ← recordItem name fields
  fixed "\n"
  ending
  return ⟨fields, size, reads, writes⟩

end CodeGrammar

namespace Pattern

variable {α β : Type} {a : Pattern α} {s t : String} {x : α} {xs : List α} {rest : List Char}

theorem Reads.many_nil (h : a.run rest = none) : Reads (many a) "" [] rest := run_many_of_none h

theorem Reads.many_cons (h : Reads a s x (t.toList ++ rest)) (hs : s ≠ "") (ht : Reads (many a) t xs rest) :
    Reads (many a) (s ++ t) (x :: xs) rest := by
  have hpos := List.length_pos_of_ne_nil (String.toList_eq_nil_iff.not.mpr hs)
  rw [Reads, String.toList_append, List.append_assoc, run_many_of_some h (by simp; omega), ht]
  rfl

theorem reads_mapM (xs : List α) (p : α → Pattern β) (t : α → String) (y : α → β)
    (h : ∀ x ∈ xs, ∀ rest, Reads (p x) (t x) (y x) rest) (rest : List Char) :
    Reads (xs.mapM p) (String.join (xs.map t)) (xs.map y) rest := by
  induction xs with
  | nil => rfl
  | cons x xs ih =>
    rw [List.forall_mem_cons] at h
    rw [List.mapM_cons, List.map_cons, String.join_cons]
    exact .bind (h.1 _) ((ih h.2).bind_pure _)

theorem behind_flatMap (xs : List α) (f : α → List String) :
    behind (xs.flatMap f) = String.join (xs.map fun x => behind (f x)) := by
  induction xs with
  | nil => rfl
  | cons x xs ih => rw [List.flatMap_cons, behind_append, ih, List.map_cons, String.join_cons]

theorem behind_map (xs : List α) (f : α → String) :
    behind (xs.map f) = String.join (xs.map fun x => "\n" ++ f x) := by
  rw [behind, List.map_map]
  rfl

end Pattern

namespace CodeGrammar

open Pattern Code

variable {rest : List Char}

theorem reads_known {line : String} (h : Inked line) (depth : Nat) (rest : List Char) :
    Reads (known line) ("\n" ++ indent depth line) () rest :=
  (reads_fixed line rest).line h depth

theorem reads_plain {line : String} (h : Inked line) (rest : List Char) :
    Reads (known line) ("\n" ++ line) () rest := by
  have hknown := reads_known h 0 rest
  rwa [indent_zero] at hknown

theorem reads_blankLine (rest : List Char) : Reads blankLine ("\n" ++ "") () rest := reads_fixed "\n" rest

/-! ### The structure -/

theorem structLines_eq (d : RecordDef) :
    structLines d = "#[allow(non_snake_case, non_camel_case_types)]" :: "#[derive(Debug, Clone, PartialEq, Eq)]" ::
      ("pub struct " ++ (d.name ++ " \x7b")) :: ([""].intercalate (d.fields.map fieldLines) ++ ["\x7d"]) := by
  show _ :: _ :: ("pub struct " ++ d.name ++ " \x7b") :: _ = _
  rw [String.append_assoc]
  rfl

theorem reads_structureHeader {name : String} (h : IsToken name) (rest : List Char) :
    Reads (next structureHeader) ("\n" ++ ("pub struct " ++ (name ++ " \x7b"))) name rest := by
  have hword : Reads (word "" "") ("" ++ (name ++ "")) name (" \x7b".toList ++ rest) := by
    refine reads_word ?_ (by simp [EndsToken, isBlank])
    rwa [String.empty_append, String.append_empty]
  rw [String.empty_append, String.append_empty] at hword
  have hheader : Reads structureHeader ("pub struct " ++ (name ++ " \x7b")) name rest :=
    .bind (reads_fixed _ _) (.bind hword ((reads_fixed " \x7b" rest).bind_pure fun _ => name))
  have hline := hheader.line (Inked.append (by decide) _) 0
  rwa [indent_zero] at hline

/-- What the texts of a field have to be, so that its declaration can be read. -/
structure Declarable (f : Field) : Prop where
  isToken_name : IsToken f.codeName
  isToken_type : IsToken f.targetType
  newline_not_mem : '\n' ∉ f.description.toList

theorem append_fieldLines_ne_empty (gap : String) (f : Field) : gap ++ behind (fieldLines f) ≠ "" := by
  unfold fieldLines
  rw [behind_append, behind_singleton]
  intro h
  have hback := (String.append_eq_empty_iff.mp (String.append_eq_empty_iff.mp h).2).2
  exact absurd (String.append_eq_empty_iff.mp hback).1 (by decide)

theorem reads_declarations {f : Field} {fs : List Field} (h : ∀ g ∈ f :: fs, Declarable g) (hr : EndsToken rest)
    (hnone : declaration.run rest = none) (gap : String) (hgap : ∀ c ∈ gap.toList, isBlank c = true) :
    Reads (many declaration) (gap ++ behind ([""].intercalate ((f :: fs).map fieldLines)))
      ((f :: fs).map Field.declared) rest := by
  induction fs generalizing f gap with
  | nil =>
    have hf := h f List.mem_cons_self
    have hfirst := reads_declaration hf.isToken_name hf.isToken_type hf.newline_not_mem hr gap hgap
    have hmany := Reads.many_cons (t := "") hfirst (append_fieldLines_ne_empty gap f) (.many_nil hnone)
    rw [String.append_empty] at hmany
    simpa using hmany
  | cons g fs ih =>
    rw [List.forall_mem_cons] at h
    have hrest := ih h.2 "\n" (by simp [isBlank])
    have hhead : EndsToken (("\n" ++ behind ([""].intercalate ((g :: fs).map fieldLines))).toList ++ rest) := by
      simp [EndsToken, isBlank]
    have hfirst := reads_declaration h.1.isToken_name h.1.isToken_type h.1.newline_not_mem hhead gap hgap
    have htext : behind ([""].intercalate ((f :: g :: fs).map fieldLines)) =
        behind (fieldLines f) ++ ("\n" ++ behind ([""].intercalate ((g :: fs).map fieldLines))) := by
      rw [List.map_cons, List.map_cons, List.intercalate_cons_cons, behind_append, behind_append, behind_singleton,
        String.append_empty, ← List.map_cons, String.append_assoc]
    rw [htext, ← String.append_assoc]
    exact .many_cons hfirst (append_fieldLines_ne_empty gap f) hrest

theorem run_declaration_of_end (rest : List Char) : declaration.run (("\n" ++ "\x7d").toList ++ rest) = none := by
  have hnext {α : Type} {a : Pattern α} (h : a.run ("\x7d".toList ++ rest) = none) :
      (next a).run (("\n" ++ "\x7d").toList ++ rest) = none := by
    have hrun := run_next_of_none h (by decide) "" (by simp) 0
    rwa [String.empty_append, indent_zero] at hrun
  have hskip : Reads (optional (next comment)) "" none (("\n" ++ "\x7d").toList ++ rest) :=
    .skipped (hnext (run_bind_fixed_of_apart (by decide) _ rest))
  rw [declaration, StateT.run_bind]
  rw [Reads, String.toList_empty, List.nil_append] at hskip
  rw [hskip]
  exact hnext (run_bind_fixed_of_apart (by decide) _ rest)

theorem reads_fields {fields : List Field} (h : ∀ f ∈ fields, Declarable f) (hr : EndsToken rest)
    (hnone : declaration.run rest = none) :
    Reads (many declaration) (behind ([""].intercalate (fields.map fieldLines))) (fields.map Field.declared) rest := by
  cases fields with
  | nil => exact .many_nil hnone
  | cons f fs =>
    have hread := reads_declarations h hr hnone "" (by simp)
    rwa [String.empty_append] at hread

theorem reads_structureItem {d : RecordDef} (hn : IsToken d.name) (h : ∀ f ∈ d.fields, Declarable f)
    (rest : List Char) :
    Reads structureItem ("#[allow(non_snake_case, non_camel_case_types)]" ++ behind (structLines d).tail)
      (d.name, d.fields.map Field.declared) rest := by
  rw [structLines_eq, List.tail_cons, behind_cons, behind_cons, behind_append, behind_singleton]
  have hfields := reads_fields h (by simp [EndsToken, isBlank]) (run_declaration_of_end rest)
  refine .bind (reads_fixed _ _) (.bind (reads_plain (by decide) _)
    (.bind (reads_structureHeader hn _) (.bind hfields ?_)))
  exact (reads_plain (by decide) rest).bind_pure fun _ => (d.name, d.fields.map Field.declared)

/-! ### The size and the default value -/

theorem sizeLines_eq (d : RecordDef) :
    sizeLines d = [("impl " ++ (d.name ++ " \x7b")),
      indent 1 ("pub const STRUCT_SIZE: usize = " ++ (toString d.size ++ ";")), "\x7d"] := by
  show [("impl " ++ d.name ++ " \x7b"), indent 1 ("pub const STRUCT_SIZE: usize = " ++ toString d.size ++ ";"), _] = _
  rw [String.append_assoc, String.append_assoc]

theorem reads_sizeItem (d : RecordDef) (rest : List Char) :
    Reads (sizeItem d.name) (behind ("" :: sizeLines d)) d.size rest := by
  rw [sizeLines_eq, behind_cons, behind_cons, behind_cons, behind_singleton]
  refine .bind (reads_blankLine _) (.bind (reads_plain (Inked.append (by decide) _) _) (.bind (x := d.size) ?_ ?_))
  · exact Reads.line (.between (reads_natural d.size (by simp [EndsNumber]))) (Inked.append (by decide) _) 1
  · exact (reads_plain (by decide) rest).bind_pure fun _ => d.size

theorem defaultLine_eq (f : Field) : f.codeName ++ ": " ++ defaultValue f ++ "," = defaultLine f.declared := by
  rw [String.append_assoc, String.append_assoc]
  rfl

theorem defaultLines_eq (d : RecordDef) :
    defaultLines d = ("impl Default for " ++ (d.name ++ " \x7b")) :: indent 1 "fn default() -> Self \x7b" ::
      indent 2 "Self \x7b" :: (d.fields.map (fun f => indent 3 (defaultLine f.declared)) ++
        [indent 2 "\x7d", indent 1 "\x7d", "\x7d"]) := by
  simp only [← defaultLine_eq]
  show ("impl Default for " ++ d.name ++ " \x7b") :: _ = _
  rw [String.append_assoc]
  rfl

theorem reads_defaultItem {d : RecordDef} (h : ∀ f ∈ d.fields, Declarable f) (rest : List Char) :
    Reads (defaultItem d.name (d.fields.map Field.declared)) (behind ("" :: defaultLines d)) () rest := by
  have hfields (rest : List Char) := reads_mapM d.fields (fun f => known (defaultLine f.declared))
    (fun f => "\n" ++ indent 3 (defaultLine f.declared)) (fun _ => ())
    (fun f hf rest => reads_known ((inked_of_isToken (h f hf).isToken_name).append _) 3 rest) rest
  rw [defaultLines_eq, behind_cons, behind_cons, behind_cons, behind_cons, behind_append, behind_cons, behind_cons,
    behind_singleton, behind_map]
  refine .bind (reads_blankLine _) (.bind (reads_plain (Inked.append (by decide) _) _)
    (.bind (reads_known (by decide) 1 _) (.bind (reads_known (by decide) 2 _) ?_)))
  rw [List.mapM_map]
  refine .bind (hfields _) (.bind (reads_known (by decide) 2 _) (.bind (reads_known (by decide) 1 _) ?_))
  exact reads_plain (by decide) rest

/-! ### The statements -/

theorem reads_field_readStatement (f : Field) (rest : List Char) :
    Reads (next (readStatement f.codeName)) (behind f.readStatement.lines) f.readStatement rest := by
  have hfield : f.readStatement.field = f.codeName := by
    unfold Field.readStatement
    split <;> rfl
  rw [← hfield]
  exact f.readStatement.reads rest

theorem reads_field_writeStatement (f : Field) (rest : List Char) :
    Reads (next (writeStatement f.codeName)) (behind f.writeStatement.lines) f.writeStatement rest := by
  have hfield : f.writeStatement.field = f.codeName := by
    unfold Field.writeStatement
    split <;> rfl
  rw [← hfield]
  exact f.writeStatement.reads rest

/-- The lines of the function that reads a record. -/
def readFunctionLines (fields : List Field) : List String :=
  indent 1 "fn read_from(&mut self, buffer: &[u8], offset: usize) -> usize \x7b" ::
    (fields.flatMap (fun f => f.readStatement.lines) ++ [indent 2 "Self::STRUCT_SIZE", indent 1 "\x7d"])

def writeFunctionLines (fields : List Field) : List String :=
  "" :: indent 1 "fn write_to(&self, buffer: &mut [u8], offset: usize) \x7b" ::
    (fields.flatMap (fun f => f.writeStatement.lines) ++ [indent 1 "\x7d"])

def sizeFunctionLines : List String :=
  ["", indent 1 "fn size(&self) -> usize \x7b", indent 2 "Self::STRUCT_SIZE", indent 1 "\x7d"]

theorem reads_readFunction (fields : List Field) (rest : List Char) :
    Reads (readFunction (fields.map Field.declared)) (behind (readFunctionLines fields))
      (fields.map Field.readStatement) rest := by
  have hreads := reads_mapM fields (fun f => next (readStatement f.codeName)) _ _
    fun f _ => reads_field_readStatement f
  unfold readFunctionLines
  rw [behind_cons, behind_append, behind_cons, behind_singleton, behind_flatMap]
  refine .bind (reads_known (by decide) 1 _) ?_
  rw [List.mapM_map]
  refine .bind (hreads _) (.bind (reads_known (by decide) 2 _) ?_)
  exact (reads_known (by decide) 1 rest).bind_pure fun _ => fields.map Field.readStatement

theorem reads_writeFunction (fields : List Field) (rest : List Char) :
    Reads (writeFunction (fields.map Field.declared)) (behind (writeFunctionLines fields))
      (fields.map Field.writeStatement) rest := by
  have hwrites := reads_mapM fields (fun f => next (writeStatement f.codeName)) _ _
    fun f _ => reads_field_writeStatement f
  unfold writeFunctionLines
  rw [behind_cons, behind_cons, behind_append, behind_singleton, behind_flatMap]
  refine .bind (reads_blankLine _) (.bind (reads_known (by decide) 1 _) ?_)
  rw [List.mapM_map]
  refine .bind (hwrites _) ?_
  exact (reads_known (by decide) 1 rest).bind_pure fun _ => fields.map Field.writeStatement

theorem reads_sizeFunction (rest : List Char) : Reads sizeFunction (behind sizeFunctionLines) () rest := by
  unfold sizeFunctionLines
  rw [behind_cons, behind_cons, behind_cons, behind_singleton]
  exact .bind (reads_blankLine _) (.bind (reads_known (by decide) 1 _)
    (.bind (reads_known (by decide) 2 _) (reads_known (by decide) 1 rest)))

theorem recordLines_eq (d : RecordDef) :
    recordLines d = (if d.fields.isEmpty then ["#[allow(unused_variables)]"] else []) ++
      (("impl BinaryRecord for " ++ (d.name ++ " \x7b")) ::
        (readFunctionLines d.fields ++ (writeFunctionLines d.fields ++ (sizeFunctionLines ++ ["\x7d"])))) := by
  have hname : s!"impl BinaryRecord for {d.name} \x7b" = "impl BinaryRecord for " ++ (d.name ++ " \x7b") := by
    show "impl BinaryRecord for " ++ d.name ++ " \x7b" = _
    rw [String.append_assoc]
  unfold recordLines readFunctionLines writeFunctionLines sizeFunctionLines
  simp only [hname, List.append_assoc, List.cons_append, List.nil_append]

theorem exists_reads_attribute (b : Bool) (t u : String) (rest : List Char) :
    ∃ x, Reads (optional (known "#[allow(unused_variables)]"))
      (behind (if b then ["#[allow(unused_variables)]"] else [])) x
      ((("\n" ++ ("impl BinaryRecord for " ++ t)) ++ u).toList ++ rest) := by
  cases b with
  | true => exact ⟨some (), .taken (reads_plain (by decide) _)⟩
  | false =>
    have hnone := run_fixed_of_apart (s := "#[allow(unused_variables)]") (t := "impl BinaryRecord for " ++ t)
      (.append (by decide) _) (u.toList ++ rest)
    have hrun := run_next_of_none hnone (Inked.append (by decide) _) "" (by simp) 0
    rw [String.empty_append, indent_zero, ← List.append_assoc, ← String.toList_append] at hrun
    exact ⟨none, .skipped hrun⟩

theorem reads_recordItem (d : RecordDef) (rest : List Char) :
    Reads (recordItem d.name (d.fields.map Field.declared)) (behind ("" :: recordLines d))
      (d.fields.map Field.readStatement, d.fields.map Field.writeStatement) rest := by
  rw [recordLines_eq, behind_cons, behind_append, behind_cons, behind_append, behind_append, behind_append,
    behind_singleton]
  obtain ⟨x, hattribute⟩ := exists_reads_attribute d.fields.isEmpty (d.name ++ " \x7b") _ rest
  refine .bind (reads_blankLine _) (.bind hattribute (.bind (reads_plain (Inked.append (by decide) _) _)
    (.bind (reads_readFunction _ _) (.bind (reads_writeFunction _ _) (.bind (reads_sizeFunction _) ?_)))))
  exact (reads_plain (by decide) rest).bind_pure fun _ =>
    (d.fields.map Field.readStatement, d.fields.map Field.writeStatement)

/-! ### The whole program -/

/-- The program that a definition is written as. -/
def programOf (d : RecordDef) : Program :=
  ⟨d.fields.map Field.declared, d.size, d.fields.map Field.readStatement, d.fields.map Field.writeStatement⟩

/-- The lines of record code behind the layout comment. -/
def itemLines (d : RecordDef) : List String :=
  structLines d ++ [""] ++ sizeLines d ++ [""] ++ defaultLines d ++ [""] ++ recordLines d

theorem text_cons (l : String) (ls : List String) : text (l :: ls) = l ++ (behind ls ++ "\n") := by
  have hlines :
      '\n' :: ls.flatMap (fun l => l.toList ++ ['\n']) = ls.flatMap (fun l => '\n' :: l.toList) ++ ['\n'] := by
    induction ls with
    | nil => rfl
    | cons l ls ih => rw [List.flatMap_cons, List.append_assoc, List.singleton_append, ih]; simp
  rw [← String.toList_inj, toList_text, List.flatMap_cons, List.append_assoc, List.singleton_append, hlines]
  simp [behind, List.flatMap_map]

theorem run_program {d : RecordDef} (hn : IsToken d.name) (h : ∀ f ∈ d.fields, Declarable f) :
    program.run (text (itemLines d)).toList = some (programOf d, []) := by
  have htext : text (itemLines d) = ("#[allow(non_snake_case, non_camel_case_types)]" ++ behind (structLines d).tail) ++
      (behind ("" :: sizeLines d) ++ (behind ("" :: defaultLines d) ++ (behind ("" :: recordLines d) ++ "\n"))) := by
    have hlines : itemLines d = "#[allow(non_snake_case, non_camel_case_types)]" ::
        ((structLines d).tail ++ ("" :: sizeLines d ++ ("" :: defaultLines d ++ "" :: recordLines d))) := by
      simp [itemLines, structLines]
    rw [hlines, text_cons, behind_append, behind_append, behind_append, String.append_assoc, String.append_assoc,
      String.append_assoc, String.append_assoc]
  have hend : Reads (fixed "\n" >>= fun _ => ending >>= fun _ => pure (programOf d)) "\n" (programOf d) [] := rfl
  have hprogram : Reads program (text (itemLines d)) (programOf d) [] := by
    rw [htext]
    exact .bind (reads_structureItem hn h _) (.bind (reads_sizeItem d _) (.bind (reads_defaultItem h _)
      (.bind (reads_recordItem d _) hend)))
  rwa [Reads, List.append_nil] at hprogram

end CodeGrammar

end RecordLayout
