import RecordLayout.Proofs.FieldTexts
import RecordLayout.Proofs.LayoutComment

/-!
# The grammar of record code

Record code is read by patterns that do not look at how it is written: they know the texts of positions and
ranges, of the statements that read and write a field, and of declarations. `Reads` says that a pattern takes
a text exactly and leaves what follows, so that the lemmas about single pieces can be joined. A statement is
read as itself (`ReadStatement.reads`, `WriteStatement.reads`), and the declaration of a field gives its name,
its type and the length of its array (`reads_declaration`).
-/

namespace RecordLayout

namespace Pattern

variable {α β : Type}

/-- A fixed text. -/
def fixed (s : String) : Pattern Unit := fun cs => (cs.dropPrefix? s.toList).map ((), ·)

/-- A pattern between two fixed texts. -/
def between (front back : String) (a : Pattern α) : Pattern α := do
  fixed front
  let x ← a
  fixed back
  return x

/-- A pattern behind blanks. -/
def next (a : Pattern α) : Pattern α := do
  let _ ← Grammar.blanks
  a

/-- The pattern reads a text as a value, and leaves the rest. -/
def Reads (a : Pattern α) (s : String) (x : α) (rest : List Char) : Prop :=
  a.run (s.toList ++ rest) = some (x, rest)

/-- Texts of which none begins with the other. -/
def Apart (s t : String) : Prop := ¬s.toList <+: t.toList ∧ ¬t.toList <+: s.toList

instance (s t : String) : Decidable (Apart s t) := inferInstanceAs (Decidable (_ ∧ _))

variable {a b : Pattern α} {f : α → Pattern β} {s t front back : String} {x : α} {y : β} {rest : List Char}

theorem reads_fixed (s : String) (rest : List Char) : Reads (fixed s) s () rest := by
  show ((s.toList ++ rest).dropPrefix? s.toList).map _ = _
  rw [List.dropPrefix?_append_of_beq rest BEq.rfl]
  rfl

theorem Apart.append (h : Apart s t) (u : String) : Apart s (t ++ u) := by
  unfold Apart
  rw [String.toList_append]
  refine ⟨fun hs => ?_, fun hu => h.2 ((List.prefix_append _ _).trans hu)⟩
  rcases List.prefix_or_prefix_of_prefix hs (List.prefix_append _ _) with hs | ht
  · exact h.1 hs
  · exact h.2 ht

theorem run_fixed_of_apart (h : Apart s t) (rest : List Char) : (fixed s).run (t.toList ++ rest) = none := by
  show ((t.toList ++ rest).dropPrefix? s.toList).map _ = none
  rw [Option.map_eq_none_iff, Option.eq_none_iff_forall_ne_some]
  intro cs hcs
  obtain ⟨p, happ, hp⟩ := List.dropPrefix?_eq_some_iff.mp hcs
  rw [eq_of_beq hp] at happ
  rcases List.prefix_or_prefix_of_prefix ⟨cs, happ.symm⟩ ⟨rest, rfl⟩ with hs | ht
  · exact h.1 hs
  · exact h.2 ht

theorem run_bind_fixed_of_apart (h : Apart s t) (f : Unit → Pattern β) (rest : List Char) :
    (fixed s >>= f).run (t.toList ++ rest) = none := by
  rw [StateT.run_bind, run_fixed_of_apart h]
  rfl

namespace Reads

theorem bind (ha : Reads a s x (t.toList ++ rest)) (hf : Reads (f x) t y rest) : Reads (a >>= f) (s ++ t) y rest := by
  rw [Reads, String.toList_append, List.append_assoc]
  exact run_bind_eq_some_iff.mpr ⟨x, _, ha, hf⟩

theorem bind_pure (ha : Reads a s x rest) (g : α → β) : Reads (a >>= fun x => pure (g x)) s (g x) rest :=
  run_bind_eq_some_iff.mpr ⟨x, rest, ha, rfl⟩

theorem map (ha : Reads a s x rest) (g : α → β) : Reads (g <$> a) s (g x) rest := by
  rw [map_eq_pure_bind]
  exact ha.bind_pure g

theorem left (h : Reads a s x rest) : Reads (a <|> b) s x rest := by
  rw [Reads, StateT.run_orElse, h]
  rfl

theorem right (ha : a.run (s.toList ++ rest) = none) (hb : Reads b s x rest) : Reads (a <|> b) s x rest := by
  rw [Reads, StateT.run_orElse, ha, hb]
  rfl

/-- A choice is passed over where another text stands. -/
theorem pastFixed {f : Unit → Pattern α} (h : Apart front s) (hb : Reads b (s ++ t) x rest) :
    Reads (fixed front >>= f <|> b) (s ++ t) x rest :=
  right (run_bind_fixed_of_apart (h.append t) f rest) hb

theorem pastBetween {c : Pattern β} {g : β → α} (h : Apart front s) (hb : Reads b (s ++ t) x rest) :
    Reads (g <$> Pattern.between front back c <|> b) (s ++ t) x rest := by
  refine right ?_ hb
  rw [map_eq_pure_bind, StateT.run_bind, Pattern.between, run_bind_fixed_of_apart (h.append t)]
  rfl

theorem taken (h : Reads a s x rest) : Reads (optional a) s (some x) rest :=
  run_optional_eq_some_iff.mpr (.inl ⟨x, rfl, h⟩)

theorem skipped (h : a.run rest = none) : Reads (optional a) "" none rest :=
  run_optional_eq_some_iff.mpr (.inr ⟨rfl, rfl, h⟩)

theorem between (h : Reads a s x (back.toList ++ rest)) :
    Reads (between front back a) (front ++ (s ++ back)) x rest := by
  refine bind (reads_fixed front _) (bind h ?_)
  exact (reads_fixed back rest).bind_pure fun _ => x

end Reads

/-! ### Lines -/

/-- Texts that start with a character that is no blank. -/
def Inked (s : String) : Prop := s.toList.head?.any isInk = true

instance (s : String) : Decidable (Inked s) := inferInstanceAs (Decidable (_ = true))

theorem Inked.append (h : Inked s) (t : String) : Inked (s ++ t) := by
  unfold Inked at h ⊢
  rw [String.toList_append, List.head?_append]
  cases hs : s.toList.head? with
  | none =>
    rw [hs] at h
    cases h
  | some c =>
    rw [hs] at h
    exact h

theorem Inked.head (h : Inked s) (rest : List Char) : ∀ c ∈ (s.toList ++ rest).head?, isBlank c = false := by
  unfold Inked at h
  intro c hc
  rw [List.head?_append] at hc
  cases hs : s.toList.head? with
  | none =>
    rw [hs] at h
    cases h
  | some d =>
    rw [hs] at h hc
    cases hc
    simpa [isInk] using h

theorem inked_of_isToken (h : IsToken s) : Inked s := by
  unfold Inked
  cases hs : s.toList with
  | nil => exact absurd (String.toList_eq_nil_iff.mp hs) h.1
  | cons c cs =>
    have hc := h.2 c (by rw [hs]; exact List.mem_cons_self)
    simp [isInk, hc]

/-- The blanks in front of a line. -/
def margin (depth : Nat) : String := "\n" ++ String.ofList (List.replicate (4 * depth) ' ')

theorem isBlank_of_mem_margin {c : Char} {depth : Nat} (h : c ∈ (margin depth).toList) : isBlank c = true := by
  simp only [margin, String.toList_append, String.toList_ofList, List.mem_append] at h
  rcases h with h | h
  · rw [List.mem_singleton.mp h]
    decide
  · rw [List.eq_of_mem_replicate h]
    decide

theorem newline_append_indent (h : Inked s) (depth : Nat) : "\n" ++ Code.indent depth s = margin depth ++ s := by
  have hne : s ≠ "" := by
    rintro rfl
    cases h
  rw [Code.indent, if_neg hne, margin, String.append_assoc]

theorem indent_zero (s : String) : Code.indent 0 s = s := by
  unfold Code.indent
  split
  · next h => exact h.symm
  · exact String.empty_append

/-- Lines, each behind its newline. -/
def behind (ls : List String) : String := String.join (ls.map ("\n" ++ ·))

theorem behind_cons (l : String) (ls : List String) : behind (l :: ls) = ("\n" ++ l) ++ behind ls := by
  rw [← String.toList_inj]
  simp [behind]

theorem behind_singleton (l : String) : behind [l] = "\n" ++ l := by
  rw [← String.toList_inj]
  simp [behind]

theorem behind_append (ls ls' : List String) : behind (ls ++ ls') = behind ls ++ behind ls' := by
  rw [← String.toList_inj]
  simp [behind]

theorem run_blanks_margin {gap : String} (hgap : ∀ c ∈ gap.toList, isBlank c = true) (hs : Inked s) (depth : Nat)
    (rest : List Char) :
    Grammar.blanks.run ((gap ++ margin depth).toList ++ (s.toList ++ rest)) =
      some ((gap ++ margin depth).toList, s.toList ++ rest) := by
  refine Grammar.run_blanks_eq_some_iff.mpr ⟨by simp [margin], fun c hc => ?_, rfl, hs.head rest⟩
  rw [String.toList_append] at hc
  exact (List.mem_append.mp hc).elim (hgap c) isBlank_of_mem_margin

/-- What starts on a line is read behind the margin of the line and blank lines. -/
theorem Reads.behindGap (h : Reads a s x rest) (hs : Inked s) (gap : String)
    (hgap : ∀ c ∈ gap.toList, isBlank c = true) (depth : Nat) :
    Reads (next a) (gap ++ ("\n" ++ Code.indent depth s)) x rest := by
  rw [newline_append_indent hs, ← String.append_assoc]
  exact bind (run_blanks_margin hgap hs depth rest) h

theorem run_next_of_none (h : a.run (s.toList ++ rest) = none) (hs : Inked s) (gap : String)
    (hgap : ∀ c ∈ gap.toList, isBlank c = true) (depth : Nat) :
    (next a).run ((gap ++ ("\n" ++ Code.indent depth s)).toList ++ rest) = none := by
  rw [newline_append_indent hs, ← String.append_assoc, String.toList_append, List.append_assoc, next, StateT.run_bind,
    run_blanks_margin hgap hs]
  exact h

theorem Reads.line (h : Reads a s x rest) (hs : Inked s) (depth : Nat) :
    Reads (next a) ("\n" ++ Code.indent depth s) x rest := by
  have hline := h.behindGap hs "" (by simp) depth
  rwa [String.empty_append] at hline

theorem Reads.lines (h : Reads a (s ++ t) x rest) (hs : Inked s) (depth : Nat) :
    Reads (next a) (("\n" ++ Code.indent depth s) ++ t) x rest := by
  have hline := h.line (hs.append t) depth
  rwa [newline_append_indent (hs.append t), ← String.append_assoc, ← newline_append_indent hs] at hline

end Pattern

namespace CodeGrammar

open Pattern Code

/-! ### Positions -/

def natural : Pattern Nat := do
  let digits ← atLeastOne (char Char.isDigit)
  return Text.natOfDigits digits

def term : Pattern Nat := do
  fixed " + "
  natural

/-- A position behind the offset of the record. -/
def position : Pattern Nat := do
  fixed "offset"
  let n ← optional term
  return n.getD 0

/-- The position of the first element of an array, and how far the elements are apart. -/
def elementPosition : Pattern (Nat × Nat) := do
  let first ← position
  fixed " + i * "
  let stride ← natural
  return (first, stride)

def range : Pattern (Nat × Nat) := do
  let first ← position
  fixed ".."
  let last ← position
  return (first, last)

/-- What can follow a number: no digit. -/
def EndsNumber (rest : List Char) : Prop := ∀ c ∈ rest.head?, c.isDigit = false

/-- What can follow a position: no digit, and no number that is added. -/
def EndsPosition (rest : List Char) : Prop := EndsNumber rest ∧ term.run rest = none

variable {rest : List Char}

theorem reads_natural (n : Nat) (h : EndsNumber rest) : Reads natural (toString n) n rest := by
  have hdigits : Reads (atLeastOne (char Char.isDigit)) (toString n) (Nat.toDigits 10 n) rest := by
    rw [Reads, run_atLeastOne_char_eq_some_iff, Nat.toString_eq_repr, Nat.toList_repr]
    exact ⟨Nat.toDigits_ne_nil, fun d hd => Nat.isDigit_of_mem_toDigits (by decide) (by decide) hd, rfl, h⟩
  have hnat := hdigits.bind_pure Text.natOfDigits
  rwa [Text.natOfDigits_toDigits] at hnat

theorem reads_position (n : Nat) (h : EndsPosition rest) : Reads position (Code.position n) n rest := by
  unfold Code.position
  split
  · next hn =>
    subst hn
    have hnone : Reads (optional term) "" none rest := .skipped h.2
    have hpos : Reads position ("offset" ++ "") 0 rest := .bind (reads_fixed "offset" _) (hnone.bind_pure (·.getD 0))
    rwa [String.append_empty] at hpos
  · have hterm : Reads term (" + " ++ toString n) n rest := .bind (reads_fixed _ _) (reads_natural n h.1)
    have htext : "offset + " ++ toString n = "offset" ++ (" + " ++ toString n) := by
      rw [← String.append_assoc]
      rfl
    show Reads position ("offset + " ++ toString n) n rest
    rw [htext]
    exact .bind (reads_fixed "offset" _) (hterm.taken.bind_pure (·.getD 0))

theorem endsPosition_of_apart {s : String} (h : Apart " + " s) (hd : EndsNumber s.toList) (rest : List Char) :
    EndsPosition (s.toList ++ rest) := by
  refine ⟨fun c hc => hd c ?_, ?_⟩
  · cases hs : s.toList with
    | nil => exact absurd (hs ▸ List.nil_prefix) h.2
    | cons d cs =>
      rw [hs] at hc
      exact hc
  · rw [term, StateT.run_bind, run_fixed_of_apart h]
    rfl

/-- Behind the position of the first element no number is added, but a multiple of the stride. -/
theorem endsPosition_stride (t : String) (rest : List Char) : EndsPosition ((" + i * " ++ t).toList ++ rest) := by
  have hcut : (" + i * " ++ t).toList ++ rest = " + ".toList ++ (("i * " ++ t).toList ++ rest) := by simp
  have hrun : term.run (" + ".toList ++ (("i * " ++ t).toList ++ rest)) = none := by
    rw [term, StateT.run_bind, reads_fixed " + "]
    rw [String.toList_append]
    rfl
  rw [hcut]
  exact ⟨by simp [EndsNumber], hrun⟩

theorem reads_elementPosition (first stride : Nat) (h : EndsNumber rest) :
    Reads elementPosition (Code.elementPosition first stride) (first, stride) rest := by
  show Reads elementPosition (Code.position first ++ (" + i * " ++ toString stride)) (first, stride) rest
  refine .bind (reads_position first (endsPosition_stride _ _)) (.bind (reads_fixed " + i * " _) ?_)
  exact (reads_natural stride h).bind_pure (first, ·)

theorem reads_range (first last : Nat) (h : EndsPosition rest) :
    Reads range (Code.range first last) (first, last) rest := by
  have hends : EndsPosition ((".." ++ Code.position last).toList ++ rest) := by
    rw [String.toList_append, List.append_assoc]
    exact endsPosition_of_apart (by decide) (by simp [EndsNumber]) _
  rw [Code.range, String.append_assoc]
  refine .bind (reads_position first hends) ?_
  exact .bind (reads_fixed ".." _) ((reads_position last h).bind_pure (first, ·))

/-! ### Statements -/

/-- A loop over the elements of a field. -/
def loop {α : Type} (field elements : String) (item : Pattern α) : Pattern α := do
  fixed "for (i, item) in self."
  fixed field
  fixed elements
  let x ← next item
  next (fixed "\x7d")
  return x

/-- What is done to a field that is read as a whole. -/
def readWhole (field : String) : Pattern ReadStatement :=
  .record field <$> between ".read_from(buffer, " ");" position <|>
  .byte field <$> between " = buffer[" "];" position <|>
  .scalar field <$> between " = record::read_be(buffer, " ");" position <|>
  (fun p => .bytes field p.1 p.2) <$> between ".copy_from_slice(&buffer[" "]);" range

def readItem (field : String) : Pattern ReadStatement :=
  (fun p => .eachRecord field p.1 p.2) <$> between "item.read_from(buffer, " ");" elementPosition <|>
  (fun p => .eachScalar field p.1 p.2) <$> between "*item = record::read_be(buffer, " ");" elementPosition

/-- A statement that reads into the field of a name. -/
def readStatement (field : String) : Pattern ReadStatement :=
  (do fixed "self."; fixed field; readWhole field) <|>
  loop field ".iter_mut().enumerate() \x7b" (readItem field)

def writeItem (field : String) : Pattern WriteStatement :=
  (fun p => .eachRecord field p.1 p.2) <$> between "item.write_to(buffer, " ");" elementPosition <|>
  (fun p => .eachScalar field p.1 p.2) <$> between "record::write_be(*item, buffer, " ");" elementPosition

/-- A statement that writes the field of a name. -/
def writeStatement (field : String) : Pattern WriteStatement :=
  (do fixed "self."; fixed field; .record field <$> between ".write_to(buffer, " ");" position) <|>
  (do fixed "record::write_be(self."; fixed field; .scalar field <$> between ", buffer, " ");" position) <|>
  (do
    fixed "buffer["
    let p ← range
    fixed "].copy_from_slice(&self."
    fixed field
    fixed ");"
    return .bytes field p.1 p.2) <|>
  loop field ".iter().enumerate() \x7b" (writeItem field)

theorem endsPosition_call (rest : List Char) : EndsPosition (");".toList ++ rest) :=
  endsPosition_of_apart (by decide) (by simp [EndsNumber]) rest

theorem endsPosition_index (back : String) (rest : List Char) : EndsPosition (("]" ++ back).toList ++ rest) := by
  rw [String.toList_append, List.append_assoc]
  exact endsPosition_of_apart (by decide) (by simp [EndsNumber]) _

theorem reads_statement {α : Type} {a : Pattern α} {x : α} {s : String} (h : Reads a s x rest) (hs : Inked s) :
    Reads (next a) (behind [indent 2 s]) x rest := by
  have hline := h.line hs 2
  rwa [behind_singleton]

/-- A loop from its first word on; `body` are its lines behind the first one. -/
def loopText (field elements : String) (body : List String) : String :=
  "for (i, item) in self." ++ (field ++ (elements ++ behind body))

theorem reads_loop {α : Type} {item : Pattern α} {s : String} {x : α} (field elements : String)
    (h : ∀ rest, Reads item s x rest) (hs : Inked s) (rest : List Char) :
    Reads (loop field elements item) (loopText field elements [indent 3 s, indent 2 "\x7d"]) x rest := by
  unfold loopText
  rw [behind_cons, behind_singleton]
  refine .bind (reads_fixed _ _) (.bind (reads_fixed _ _) (.bind (reads_fixed _ _) (.bind (Reads.line (h _) hs 3) ?_)))
  exact Reads.bind_pure (Reads.line (reads_fixed "\x7d" rest) (by decide) 2) fun _ => x

theorem reads_loopStatement {α : Type} {a : Pattern α} {x : α} {field elements : String} {body : List String}
    (h : Reads a (loopText field elements body) x rest) :
    Reads (next a) (behind (indent 2 ("for (i, item) in self." ++ (field ++ elements)) :: body)) x rest := by
  have htext : loopText field elements body = ("for (i, item) in self." ++ (field ++ elements)) ++ behind body := by
    unfold loopText
    rw [String.append_assoc, String.append_assoc]
  rw [htext] at h
  rw [behind_cons]
  exact h.lines (Inked.append (by decide) _) 2

end CodeGrammar

namespace Code

open Pattern CodeGrammar

/-- The name of the field that a statement reads into. -/
def ReadStatement.field : ReadStatement → String
  | .record field _ | .byte field _ | .scalar field _ | .bytes field _ _ | .eachRecord field _ _
  | .eachScalar field _ _ => field

/-- The name of the field that a statement writes. -/
def WriteStatement.field : WriteStatement → String
  | .record field _ | .scalar field _ | .bytes field _ _ | .eachRecord field _ _ | .eachScalar field _ _ => field

/-- A statement is read as itself, where it stands among other lines. -/
theorem ReadStatement.reads (s : ReadStatement) (rest : List Char) :
    Reads (next (readStatement s.field)) (behind s.lines) s rest := by
  have hwhole {text : String} (h : Reads (readWhole s.field) text s rest) :
      Reads (next (readStatement s.field)) (behind [indent 2 ("self." ++ (s.field ++ text))]) s rest :=
    reads_statement (.left (.bind (reads_fixed _ _) (.bind (reads_fixed _ _) h))) (Inked.append (by decide) _)
  have heach {text : String} (h : ∀ rest, Reads (readItem s.field) text s rest) (ht : Inked text) :
      Reads (next (readStatement s.field)) (behind [indent 2 ("for (i, item) in self." ++
        (s.field ++ ".iter_mut().enumerate() \x7b")), indent 3 text, indent 2 "\x7d"]) s rest :=
    reads_loopStatement (.pastFixed (by decide) (reads_loop _ _ h ht rest))
  cases s with
  | record field pos =>
    simp only [lines, String.append_assoc]
    exact hwhole (.left (.map (.between (reads_position pos (endsPosition_call rest))) _))
  | byte field pos =>
    simp only [lines, String.append_assoc]
    refine hwhole (.pastBetween (by decide) (.left ?_))
    exact .map (.between (reads_position pos (endsPosition_index ";" rest))) _
  | scalar field pos =>
    simp only [lines, String.append_assoc]
    refine hwhole (.pastBetween (by decide) (.pastBetween (by decide) (.left ?_)))
    exact .map (.between (reads_position pos (endsPosition_call rest))) _
  | bytes field first last =>
    simp only [lines, String.append_assoc]
    refine hwhole (.pastBetween (by decide) (.pastBetween (by decide) (.pastBetween (by decide) ?_)))
    exact .map (.between (reads_range first last (endsPosition_index ");" rest))) fun p => bytes field p.1 p.2
  | eachRecord field first stride =>
    simp only [lines, String.append_assoc]
    refine heach (fun rest => .left ?_) (Inked.append (by decide) _)
    exact .map (.between (reads_elementPosition first stride (endsPosition_call rest).1)) fun p =>
      eachRecord field p.1 p.2
  | eachScalar field first stride =>
    simp only [lines, String.append_assoc]
    refine heach (fun rest => .pastBetween (by decide) ?_) (Inked.append (by decide) _)
    exact .map (.between (reads_elementPosition first stride (endsPosition_call rest).1)) fun p =>
      eachScalar field p.1 p.2

theorem WriteStatement.reads (s : WriteStatement) (rest : List Char) :
    Reads (next (writeStatement s.field)) (behind s.lines) s rest := by
  have heach {text : String} (h : ∀ rest, Reads (writeItem s.field) text s rest) (ht : Inked text) :
      Reads (next (writeStatement s.field)) (behind [indent 2 ("for (i, item) in self." ++
        (s.field ++ ".iter().enumerate() \x7b")), indent 3 text, indent 2 "\x7d"]) s rest := by
    refine reads_loopStatement (.pastFixed (by decide) (.pastFixed (by decide) (.pastFixed (by decide) ?_)))
    exact reads_loop _ _ h ht rest
  cases s with
  | record field pos =>
    simp only [lines, String.append_assoc]
    refine reads_statement (.left ?_) (Inked.append (by decide) _)
    refine .bind (reads_fixed _ _) (.bind (reads_fixed _ _) ?_)
    exact .map (.between (reads_position pos (endsPosition_call rest))) _
  | scalar field pos =>
    simp only [lines, String.append_assoc]
    refine reads_statement (.pastFixed (by decide) (.left ?_)) (Inked.append (by decide) _)
    refine .bind (reads_fixed _ _) (.bind (reads_fixed _ _) ?_)
    exact .map (.between (reads_position pos (endsPosition_call rest))) _
  | bytes field first last =>
    simp only [lines, String.append_assoc]
    refine reads_statement (.pastFixed (by decide) (.pastFixed (by decide) (.left ?_))) (Inked.append (by decide) _)
    refine .bind (reads_fixed _ _) ?_
    have hends := endsPosition_index (".copy_from_slice(&self." ++ (field ++ ");")) rest
    refine .bind (reads_range first last hends) (.bind (reads_fixed _ _) (.bind (reads_fixed _ _) ?_))
    exact (reads_fixed ");" rest).bind_pure fun _ => bytes field first last
  | eachRecord field first stride =>
    simp only [lines, String.append_assoc]
    refine heach (fun rest => .left ?_) (Inked.append (by decide) _)
    exact .map (.between (reads_elementPosition first stride (endsPosition_call rest).1)) fun p =>
      eachRecord field p.1 p.2
  | eachScalar field first stride =>
    simp only [lines, String.append_assoc]
    refine heach (fun rest => .pastBetween (by decide) ?_) (Inked.append (by decide) _)
    exact .map (.between (reads_elementPosition first stride (endsPosition_call rest).1)) fun p =>
      eachScalar field p.1 p.2

end Code

/-! ### Declarations -/

/-- The field of a structure as it is declared. -/
structure Code.Declared where
  name : String
  type : String
  /-- The length of an array. -/
  count : Option Nat
  deriving DecidableEq, Repr

/-- How record code declares a field. -/
def Field.declared (f : Field) : Code.Declared := ⟨f.codeName, f.targetType, f.count⟩

namespace CodeGrammar

open Pattern Code

/-- A token without what encloses it. -/
def word (front back : String) : Pattern String := do
  let w ← Grammar.token
  let w ← w.dropPrefix? front.toList
  let w ← w.dropSuffix? back.toList
  return String.ofList w

/-- The type of a field, with the length of an array. -/
def fieldType : Pattern (String × Option Nat) :=
  (do
    let t ← word "[" ";"
    fixed " "
    let n ← natural
    fixed "],"
    return (t, some n)) <|>
  (do
    let t ← word "" ","
    return (t, none))

/-- A comment up to the end of its line. -/
def comment : Pattern Unit := do
  fixed "///"
  let _ ← many (char (· != '\n'))
  return ()

/-- The name and the type of a field. -/
def declared : Pattern Declared := do
  fixed "pub "
  let name ← word "" ":"
  fixed " "
  let type ← fieldType
  return ⟨name, type.1, type.2⟩

/-- The declaration of a field, with the comment in front of it. -/
def declaration : Pattern Declared := do
  let _ ← optional (next comment)
  next declared

variable {rest : List Char}

/-- What can follow a token. -/
def EndsToken (rest : List Char) : Prop := ∀ b ∈ rest.head?, isBlank b = true

theorem run_token_append {s : String} (h : IsToken s) (hr : EndsToken rest) :
    Grammar.token.run (s.toList ++ rest) = some (s.toList, rest) :=
  Grammar.run_token_eq_some_iff.mpr ⟨by simpa using h.1, h.2, rfl, hr⟩

theorem run_word {front back s : String} (h : IsToken s) (hr : EndsToken rest) :
    (word front back).run (s.toList ++ rest) =
      ((s.toList.dropPrefix? front.toList).bind (·.dropSuffix? back.toList)).map fun w => (String.ofList w, rest) := by
  rw [word, StateT.run_bind, run_token_append h hr]
  cases hp : s.toList.dropPrefix? front.toList with
  | none => simp [hp]
  | some w => cases hs : w.dropSuffix? back.toList <;> simp [hp, hs]

theorem reads_word {front back s : String} (h : IsToken (front ++ (s ++ back))) (hr : EndsToken rest) :
    Reads (word front back) (front ++ (s ++ back)) s rest := by
  rw [Reads, run_word h hr, String.toList_append, List.dropPrefix?_append_of_beq _ BEq.rfl, Option.bind_some,
    String.toList_append, List.dropSuffix?_eq_some_iff.mpr ⟨_, rfl, BEq.rfl⟩, Option.map_some, String.ofList_toList]

/-- A type by itself is not read as that of an array, even if it starts with a bracket. -/
theorem run_word_array_of_comma {s : String} (h : IsToken (s ++ ",")) (hr : EndsToken rest) :
    (word "[" ";").run ((s ++ ",").toList ++ rest) = none := by
  rw [run_word h hr, Option.map_eq_none_iff, Option.eq_none_iff_forall_ne_some]
  intro w hw
  obtain ⟨v, hv, hw⟩ := Option.bind_eq_some_iff.mp hw
  obtain ⟨p, hp, -⟩ := List.dropPrefix?_eq_some_iff.mp hv
  obtain ⟨q, rfl, hq⟩ := List.dropSuffix?_eq_some_iff.mp hw
  have hlast := congrArg List.getLast? hp
  rw [eq_of_beq hq] at hlast
  simp at hlast

variable {f : Field}

theorem reads_fieldType (ht : IsToken f.targetType) (hr : EndsToken rest) :
    Reads fieldType (Code.fieldType f ++ ",") (f.targetType, f.count) rest := by
  unfold Code.fieldType
  cases hc : f.count with
  | some n =>
    have htext : "[" ++ f.targetType ++ "; " ++ toString n ++ "]" ++ "," =
        ("[" ++ (f.targetType ++ ";")) ++ (" " ++ (toString n ++ "],")) := by
      rw [← String.toList_inj]
      simp
    show Reads fieldType ("[" ++ f.targetType ++ "; " ++ toString n ++ "]" ++ ",") _ rest
    rw [htext]
    refine .left (.bind (reads_word ?_ ?_) (.bind (reads_fixed _ _) (.bind (reads_natural n ?_) ?_)))
    · exact IsToken.append (by decide) (ht.append (by decide))
    · simp [EndsToken, isBlank]
    · simp [EndsNumber]
    · exact (reads_fixed "]," rest).bind_pure fun _ => (f.targetType, some n)
  | none =>
    have hcomma : IsToken (f.targetType ++ ",") := ht.append (by decide)
    have hrun : Reads (word "" ",") ("" ++ (f.targetType ++ ",")) f.targetType rest :=
      reads_word (by rwa [String.empty_append]) hr
    rw [String.empty_append] at hrun
    refine .right ?_ (hrun.bind_pure (·, none))
    rw [StateT.run_bind, run_word_array_of_comma hcomma hr]
    rfl

theorem reads_declared (hn : IsToken f.codeName) (ht : IsToken f.targetType) (hr : EndsToken rest) :
    Reads declared ("pub " ++ f.codeName ++ ": " ++ Code.fieldType f ++ ",") f.declared rest := by
  have htext : "pub " ++ f.codeName ++ ": " ++ Code.fieldType f ++ "," =
      "pub " ++ (("" ++ (f.codeName ++ ":")) ++ (" " ++ (Code.fieldType f ++ ","))) := by
    rw [← String.toList_inj]
    simp
  rw [htext]
  refine .bind (reads_fixed _ _) (.bind (reads_word ?_ ?_) (.bind (reads_fixed _ _) ?_))
  · rw [String.empty_append]
    exact hn.append (by decide)
  · simp [EndsToken, isBlank]
  · exact (reads_fieldType ht hr).bind_pure fun type => (⟨f.codeName, type.1, type.2⟩ : Declared)

theorem reads_comment {description : String} (h : '\n' ∉ description.toList) (t : String) (rest : List Char) :
    Reads comment ("/// " ++ description) () (("\n" ++ t).toList ++ rest) := by
  have hall : ∀ c ∈ (" " ++ description).toList, (c != '\n') = true := by
    intro c hc
    rw [String.toList_append, List.mem_append] at hc
    rw [bne_iff_ne]
    rintro rfl
    rcases hc with hc | hc
    · cases List.mem_singleton.mp hc
    · exact h hc
  have hmany : Reads (many (char (· != '\n'))) (" " ++ description) (" " ++ description).toList
      (("\n" ++ t).toList ++ rest) := by
    rw [Reads, run_many_char, List.takeWhile_append_of_pos hall, List.dropWhile_append_of_pos hall]
    simp
  have htext : "/// " ++ description = "///" ++ (" " ++ description) := by
    rw [← String.toList_inj]
    simp
  rw [htext]
  exact .bind (reads_fixed _ _) (hmany.bind_pure fun _ => ())

theorem reads_declaration (hn : IsToken f.codeName) (ht : IsToken f.targetType) (hd : '\n' ∉ f.description.toList)
    (hr : EndsToken rest) (gap : String) (hgap : ∀ c ∈ gap.toList, isBlank c = true) :
    Reads declaration (gap ++ behind (fieldLines f)) f.declared rest := by
  have hink : Inked ("pub " ++ f.codeName ++ ": " ++ Code.fieldType f ++ ",") := by
    rw [String.append_assoc, String.append_assoc, String.append_assoc]
    exact Inked.append (by decide) _
  have hdecl := reads_declared hn ht hr
  unfold fieldLines
  split
  · -- without a comment the name is behind the blanks at once
    have hnone : comment.run (("pub " ++ f.codeName ++ ": " ++ Code.fieldType f ++ ",").toList ++ rest) = none := by
      rw [String.append_assoc, String.append_assoc, String.append_assoc]
      exact run_bind_fixed_of_apart (.append (by decide) _) _ _
    have hskip := Reads.skipped (run_next_of_none hnone hink gap hgap 1)
    rw [List.nil_append, behind_singleton, ← String.empty_append (s := gap ++ _)]
    exact .bind hskip (hdecl.behindGap hink gap hgap 1)
  · rw [behind_append, behind_singleton, behind_singleton, ← String.append_assoc]
    refine .bind (Reads.taken (x := ()) ?_) (hdecl.line hink 1)
    exact (reads_comment hd _ rest).behindGap (Inked.append (by decide) _) gap hgap 1

end CodeGrammar

end RecordLayout
