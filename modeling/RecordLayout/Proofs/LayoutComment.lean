import RecordLayout.Code.Unit
import RecordLayout.Proofs.Tokens
import Mathlib.Data.List.Chain

/-!
# The layout comment

Record code shows the layout table in a block comment, and block comments nest. A line of the table is
defused in two steps, one for each of the two marks: the first step may bring a mark of the other kind
together, the second step brings nothing together. The rest of a comment line is blanks and an asterisk
between blanks, so that no mark is left in the comment and it is closed by its own last line.
-/

namespace RecordLayout.Code

/-- Two characters that mean something if the second one follows the first. -/
structure Mark where
  first : Char
  second : Char
  first_ink : isBlank first = false
  second_ink : isBlank second = false

namespace Mark

def opening : Mark := ⟨'/', '*', by decide, by decide⟩

def closing : Mark := ⟨'*', '/', by decide, by decide⟩

/-- The mark stands nowhere in a text. -/
def Absent (m : Mark) (cs : List Char) : Prop := cs.IsChain fun x y => ¬(x = m.first ∧ y = m.second)

namespace Absent

variable {m : Mark} {a b c : Char} {cs cs' : List Char}

theorem not_occurs (h : m.Absent cs) : ¬[m.first, m.second] <:+: cs := by
  rintro ⟨front, back, rfl⟩
  exact (List.isChain_cons_cons.mp h.left_of_append.right_of_append).1 ⟨rfl, rfl⟩

theorem cons (hc : ∀ y ∈ cs.head?, ¬(c = m.first ∧ y = m.second)) (h : m.Absent cs) : m.Absent (c :: cs) :=
  List.isChain_cons.mpr ⟨hc, h⟩

theorem cons_blank (hc : isBlank c = true) (h : m.Absent cs) : m.Absent (c :: cs) := by
  refine h.cons fun y _ ⟨he, _⟩ => ?_
  rw [he, m.first_ink] at hc
  cases hc

theorem cons_cons_blank (hb : isBlank b = true) (h : m.Absent cs) : m.Absent (c :: b :: cs) := by
  refine (h.cons_blank hb).cons fun y hy ⟨_, he⟩ => ?_
  rw [List.head?_cons, Option.mem_some_iff] at hy
  rw [hy, he, m.second_ink] at hb
  cases hb

theorem append_blank (hb : isBlank b = true) (h : m.Absent cs) (h' : m.Absent cs') : m.Absent (cs ++ b :: cs') := by
  induction cs with
  | nil => exact h'.cons_blank hb
  | cons c cs ih =>
    obtain ⟨hc, hcs⟩ := List.isChain_cons.mp h
    rcases cs with _ | ⟨d, cs⟩
    · exact h'.cons_cons_blank hb
    · exact (ih hcs).cons hc

theorem trimEnd (h : m.Absent cs) : m.Absent (Text.trimEnd cs) := by
  obtain ⟨bs, hbs, -⟩ := Text.exists_trimEnd_append cs
  rw [hbs] at h
  exact h.left_of_append

end Absent

end Mark

section SpaceBetween

variable {a b : Char} {cs : List Char}

theorem head?_spaceBetween (a b : Char) (cs : List Char) : (spaceBetween a b cs).head? = cs.head? := by
  cases cs with
  | nil => rfl
  | cons c cs => rw [spaceBetween]; split <;> rfl

theorem filter_isInk_spaceBetween (a b : Char) (cs : List Char) :
    (spaceBetween a b cs).filter isInk = cs.filter isInk := by
  induction cs with
  | nil => rfl
  | cons c cs ih =>
    rw [spaceBetween]
    split <;> simp [List.filter_cons, ih, isInk, isBlank]

namespace Mark

variable {m : Mark}

theorem absent_spaceBetween (m : Mark) (cs : List Char) : m.Absent (spaceBetween m.first m.second cs) := by
  induction cs with
  | nil => exact .nil
  | cons c cs ih =>
    rw [spaceBetween]
    split
    · exact ih.cons_cons_blank rfl
    · next hne =>
      refine ih.cons fun y hy ⟨hc, he⟩ => hne ?_
      rw [head?_spaceBetween, he, Option.mem_def] at hy
      simp [hc, hy]

/-- A space between two characters brings no other mark together. -/
theorem Absent.spaceBetween (h : m.Absent cs) : m.Absent (spaceBetween a b cs) := by
  induction cs with
  | nil => exact .nil
  | cons c cs ih =>
    obtain ⟨hc, hcs⟩ := List.isChain_cons.mp h
    rw [Code.spaceBetween]
    split
    · exact (ih hcs).cons_cons_blank rfl
    · refine (ih hcs).cons ?_
      rwa [head?_spaceBetween]

end Mark

end SpaceBetween

/-! ### Lines of the comment -/

theorem toList_commentLine (line : String) :
    (commentLine line).toList =
      Text.trimEnd (' ' :: '*' :: ' ' :: spaceBetween '/' '*' (spaceBetween '*' '/' line.toList)) := by
  simp only [commentLine, trimmedEnd, String.toList_ofList, String.toList_append]
  rfl

theorem absent_commentLine (line : String) :
    Mark.opening.Absent (commentLine line).toList ∧ Mark.closing.Absent (commentLine line).toList := by
  have hopen := Mark.opening.absent_spaceBetween (spaceBetween '*' '/' line.toList)
  have hclose := (Mark.closing.absent_spaceBetween line.toList).spaceBetween (a := '/') (b := '*')
  rw [toList_commentLine]
  exact ⟨((hopen.cons_cons_blank rfl).cons_blank rfl).trimEnd, ((hclose.cons_cons_blank rfl).cons_blank rfl).trimEnd⟩

theorem filter_isInk_commentLine (line : String) :
    (commentLine line).toList.filter isInk = '*' :: line.toList.filter isInk := by
  rw [toList_commentLine]
  generalize hcs : spaceBetween '/' '*' (spaceBetween '*' '/' line.toList) = cs
  have hink : cs.filter isInk = line.toList.filter isInk := by
    rw [← hcs, filter_isInk_spaceBetween, filter_isInk_spaceBetween]
  obtain ⟨bs, hbs, hblank⟩ := Text.exists_trimEnd_append (' ' :: '*' :: ' ' :: cs)
  have hnone : bs.filter isInk = [] := List.filter_eq_nil_iff.mpr fun c hc => by simp [isInk, hblank c hc]
  have hall := congrArg (List.filter isInk) hbs
  rw [List.filter_append, hnone, List.append_nil] at hall
  rw [← hall, ← hink]
  simp [isInk, isBlank]

/-- Lines as a text, each with its newline. -/
def text (ls : List String) : String := String.join (ls.map (· ++ "\n"))

theorem toList_text (ls : List String) : (text ls).toList = ls.flatMap fun l => l.toList ++ ['\n'] := by
  rw [text, String.toList_join, List.flatMap_map]
  simp [String.toList_append]

theorem text_append (ls ls' : List String) : text (ls ++ ls') = text ls ++ text ls' := by
  rw [← String.toList_inj, String.toList_append, toList_text, toList_text, toList_text, List.flatMap_append]

theorem text_layoutComment (d : RecordDef) :
    text (layoutComment d) = "/*\n" ++ text ((FieldTable.lines d.fields).map commentLine) ++ " */\n" := by
  rw [layoutComment, ← List.singleton_append, List.append_assoc, text_append, text_append, ← String.append_assoc]
  rfl

theorem absent_text {m : Mark} {ls : List String} (h : ∀ l ∈ ls, m.Absent l.toList) : m.Absent (text ls).toList := by
  rw [toList_text]
  induction ls with
  | nil => exact .nil
  | cons l ls ih =>
    obtain ⟨hl, hls⟩ := List.forall_mem_cons.mp h
    rw [List.flatMap_cons, List.append_assoc]
    exact hl.append_blank rfl (ih hls)

/-! ### Block comments -/

/-- What follows block comments of which `depth` are open. They nest: each has to be closed by itself. -/
def afterComments : Nat → List Char → Option (List Char)
  | 0, cs => some cs
  | _ + 1, [] => none
  | depth + 1, '/' :: '*' :: cs => afterComments (depth + 2) cs
  | depth + 1, '*' :: '/' :: cs => afterComments depth cs
  | depth + 1, _ :: cs => afterComments (depth + 1) cs

/-- What follows the block comment that a text starts with. -/
def afterComment? : List Char → Option (List Char)
  | '/' :: '*' :: cs => afterComments 1 cs
  | _ => none

theorem afterComments_cons {c : Char} {cs : List Char} (depth : Nat)
    (ho : ∀ y ∈ cs.head?, ¬(c = '/' ∧ y = '*')) (hc : ∀ y ∈ cs.head?, ¬(c = '*' ∧ y = '/')) :
    afterComments (depth + 1) (c :: cs) = afterComments (depth + 1) cs := by
  rw [afterComments]
  · rintro tail rfl rfl
    exact ho _ rfl ⟨rfl, rfl⟩
  · rintro tail rfl rfl
    exact hc _ rfl ⟨rfl, rfl⟩

theorem afterComments_append {cs : List Char} (ho : Mark.opening.Absent cs) (hc : Mark.closing.Absent cs)
    (depth : Nat) (rest : List Char) :
    afterComments (depth + 1) (cs ++ ' ' :: rest) = afterComments (depth + 1) (' ' :: rest) := by
  induction cs with
  | nil => rfl
  | cons c cs ih =>
    have hspace {m : Mark} (h : m.Absent (c :: cs)) : m.Absent (c :: cs ++ [' ']) := h.append_blank rfl .nil
    rw [List.cons_append, afterComments_cons, ih ho.tail hc.tail]
    · cases cs <;> exact (List.isChain_cons.mp (hspace ho)).1
    · cases cs <;> exact (List.isChain_cons.mp (hspace hc)).1

/-- The layout comment cannot be broken out of. Record code is the preamble, the comment and the rest, and the lines
of the comment show all of the table and hold no mark that opens or closes a comment. So the comment that starts at
its first line ends with its last line. -/
theorem layout_comment_ends_at_its_last_line (path : String) (d : RecordDef) :
    let table := FieldTable.lines d.fields
    let inside := text (table.map commentLine)
    ∃ after, render path d = text (preamble path d) ++ "/*\n" ++ inside ++ " */\n" ++ after ∧
      inside.toList.filter isInk = table.flatMap (fun line => '*' :: line.toList.filter isInk) ∧
      ¬"/*".toList <:+: inside.toList ∧ ¬"*/".toList <:+: inside.toList ∧
      afterComment? ("/*\n" ++ inside ++ " */\n" ++ after).toList = some ("\n" ++ after).toList := by
  intro table inside
  have hlines : ∀ l ∈ table.map commentLine, Mark.opening.Absent l.toList ∧ Mark.closing.Absent l.toList := by
    intro l hl
    obtain ⟨line, -, rfl⟩ := List.mem_map.mp hl
    exact absent_commentLine line
  have hopen : Mark.opening.Absent inside.toList := absent_text fun l hl => (hlines l hl).1
  have hclose : Mark.closing.Absent inside.toList := absent_text fun l hl => (hlines l hl).2
  refine ⟨text (structLines d ++ [""] ++ sizeLines d ++ [""] ++ defaultLines d ++ [""] ++ recordLines d), ?_, ?_,
    hopen.not_occurs, hclose.not_occurs, ?_⟩
  · have hrender : render path d = text (lines path d) := rfl
    rw [hrender, lines]
    simp only [text_append, text_layoutComment, String.append_assoc, inside, table]
  · have hnewline : List.filter isInk ['\n'] = [] := by decide
    simp only [inside, toList_text, List.flatMap_map, List.filter_flatMap, List.filter_append, filter_isInk_commentLine,
      hnewline, List.append_nil]
  · simp only [String.toList_append, List.append_assoc]
    show afterComments 1 ('\n' :: (inside.toList ++ ' ' :: '*' :: '/' :: '\n' :: _)) = _
    rw [afterComments_cons 0 (by simp) (by simp), afterComments_append hopen hclose]
    rfl

end RecordLayout.Code
