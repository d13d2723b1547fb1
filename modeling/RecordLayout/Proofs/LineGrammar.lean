import RecordLayout.Proofs.DeclaratorGrammar
import RecordLayout.Proofs.Tokens
import Mathlib

/-!
# The grammar of lines

A header and a member line have the same form: two tokens with blanks between them, and then, behind
more blanks, anything. `Text.Runs` says which tokens a text has, and `Text.Splits` how a text is put
together from two tokens and what stands around them. Splitting a member line finds such parts if there
are any (`MemberLine.ofString?_eq_some_iff`). So does the grammar, which takes as much as it can at every
step and gives nothing back (`Grammar.run_line_eq_some_iff`).
-/

namespace RecordLayout

/-! ### The tokens of a text -/

namespace Text

/-- The maximal runs of characters that are not blank, from left to right. -/
inductive Runs : List Char → List (List Char) → Prop
  | nil {bs} : (∀ b ∈ bs, isBlank b = true) → Runs bs []
  | cons {bs t rest ts} : (∀ b ∈ bs, isBlank b = true) → t ≠ [] → (∀ c ∈ t, isBlank c = false) →
      (∀ b ∈ rest.head?, isBlank b = true) → Runs rest ts → Runs (bs ++ t ++ rest) (t :: ts)

variable {cs bs rest : List Char} {ts : List (List Char)}

theorem words_blank_append (hb : ∀ b ∈ bs, isBlank b = true) (cs : List Char) : words (bs ++ cs) = words cs := by
  induction bs with
  | nil => rfl
  | cons b bs ih =>
    rw [List.forall_mem_cons] at hb
    rw [List.cons_append, words_cons_blank hb.1, ih hb.2]

theorem words_token_append {t : List Char} (hne : t ≠ []) (ht : ∀ c ∈ t, isBlank c = false)
    (hr : ∀ b ∈ rest.head?, isBlank b = true) : words (t ++ rest) = t :: words rest := by
  obtain ⟨htoken, hafter⟩ := token_append ht hr
  rw [words_of_token (by rw [htoken]; exact hne), htoken, hafter]

theorem Runs.words_eq (h : Runs cs ts) : words cs = ts := by
  induction h with
  | nil hb => exact words_of_blank hb
  | cons hb hne ht hr _ ih => rw [List.append_assoc, words_blank_append hb, words_token_append hne ht hr, ih]

theorem exists_append_trimStart (cs : List Char) :
    ∃ bs, cs = bs ++ trimStart cs ∧ ∀ b ∈ bs, isBlank b = true :=
  ⟨cs.takeWhile isBlank, List.takeWhile_append_dropWhile.symm, fun _ => List.mem_takeWhile_imp⟩

theorem runs_words (cs : List Char) : Runs cs (words cs) := by
  obtain ⟨bs, hcs, hb⟩ := exists_append_trimStart cs
  by_cases ht : token (trimStart cs) = []
  · rw [trimStart_eq_nil_of_token ht, List.append_nil] at hcs
    subst hcs
    rw [words_of_blank hb]
    exact .nil hb
  · have hsplit := token_append_afterToken (trimStart cs)
    -- what follows the first token is shorter than the text
    have hlt : (afterToken (trimStart cs)).length < cs.length := by
      have hpos := List.length_pos_of_ne_nil ht
      have hlen := congrArg List.length hcs
      rw [← hsplit, List.length_append, List.length_append] at hlen
      omega
    have hruns := runs_words (afterToken (trimStart cs))
    have hcons := Runs.cons hb ht (fun _ => isBlank_of_mem_token) (fun _ => isBlank_of_head?_afterToken) hruns
    rwa [List.append_assoc, hsplit, ← hcs, ← words_of_token ht, words_trimStart] at hcons
termination_by cs.length

theorem runs_iff : Runs cs ts ↔ ts = words cs := by
  constructor
  · intro h
    exact h.words_eq.symm
  · rintro rfl
    exact runs_words cs

/-! ### Two tokens -/

/-- A text is put together from two tokens, with a gap between them and a tail. -/
structure Splits (cs first gap second tail : List Char) : Prop where
  eq : cs = first ++ gap ++ second ++ tail
  first_ne : first ≠ []
  first_ink : ∀ c ∈ first, isBlank c = false
  gap_ne : gap ≠ []
  gap_blank : ∀ b ∈ gap, isBlank b = true
  second_ne : second ≠ []
  second_ink : ∀ c ∈ second, isBlank c = false
  tail_head : ∀ b ∈ tail.head?, isBlank b = true

variable {first gap second tail : List Char}

theorem Splits.head?_ink (h : Splits cs first gap second tail) : ∀ b ∈ cs.head?, isBlank b = false := by
  obtain ⟨c, first, rfl⟩ := List.exists_cons_of_ne_nil h.first_ne
  rw [h.eq]
  rintro b ⟨⟩
  exact h.first_ink c List.mem_cons_self

theorem Splits.gap_head (h : Splits cs first gap second tail) :
    ∀ b ∈ (gap ++ second ++ tail).head?, isBlank b = true := by
  obtain ⟨b, gap, rfl⟩ := List.exists_cons_of_ne_nil h.gap_ne
  rintro b ⟨⟩
  exact h.gap_blank b List.mem_cons_self

theorem Splits.words_eq (h : Splits cs first gap second tail) : words cs = first :: second :: words tail := by
  rw [h.eq, List.append_assoc, List.append_assoc, ← List.append_assoc gap,
    words_token_append h.first_ne h.first_ink h.gap_head, List.append_assoc, words_blank_append h.gap_blank,
    words_token_append h.second_ne h.second_ink h.tail_head]

/-- The two tokens of a text that does not start with a blank are its first two runs. -/
theorem exists_splits_iff :
    (∃ first gap second tail, Splits cs first gap second tail) ↔
      (∀ b ∈ cs.head?, isBlank b = false) ∧ 2 ≤ (words cs).length := by
  constructor
  · rintro ⟨first, gap, second, tail, h⟩
    rw [h.words_eq]
    exact ⟨h.head?_ink, by simp⟩
  · rintro ⟨hink, htwo⟩
    have hruns := runs_words cs
    generalize words cs = ts at hruns htwo
    rcases hruns with _ | @⟨bs, first, rest, ts, hb, hne, hfirst, hr, hruns⟩
    · simp at htwo
    rcases hruns with _ | @⟨gap, second, tail, ts, hgap, hne', hsecond, htail, -⟩
    · simp at htwo
    -- there is no blank in front of the first token, and there is one in front of the second
    obtain rfl : bs = [] := by
      rcases bs with _ | ⟨b, bs⟩
      · rfl
      · have hb := hb b List.mem_cons_self
        rw [hink b rfl] at hb
        cases hb
    refine ⟨first, gap, second, tail, by simp, hne, hfirst, ?_, hgap, hne', hsecond, htail⟩
    rintro rfl
    obtain ⟨c, second, rfl⟩ := List.exists_cons_of_ne_nil hne'
    have hc := hr c rfl
    rw [hsecond c List.mem_cons_self] at hc
    cases hc

theorem nonempty?_eq_some_iff {t : List Char} : nonempty? cs = some t ↔ t ≠ [] ∧ cs = t := by
  rw [nonempty?]
  rcases cs with _ | ⟨c, cs⟩
  · simp
  · simp only [List.isEmpty_cons, Bool.false_eq_true, if_false, Option.some.injEq]
    constructor
    · rintro rfl
      exact ⟨List.cons_ne_nil c cs, rfl⟩
    · exact And.right

end Text

/-! ### Member lines -/

namespace MemberLine

open Text

variable {m : MemberLine} {line : String} {first gap second tail : List Char}

theorem ofString?_of_splits (h : Splits line.toList first gap second tail) :
    ofString? line = some ⟨String.ofList first, String.ofList second, String.ofList (trim tail)⟩ := by
  have hline : line.toList = first ++ (gap ++ second ++ tail) := by simp [h.eq]
  obtain ⟨htoken, hafter⟩ := token_append h.first_ink h.gap_head
  obtain ⟨htoken', hafter'⟩ := token_append h.second_ink h.tail_head
  have htrim : trimStart (gap ++ second ++ tail) = second ++ tail := by
    obtain ⟨c, second, rfl⟩ := List.exists_cons_of_ne_nil h.second_ne
    rw [trimStart, List.append_assoc, List.dropWhile_append_of_pos h.gap_blank]
    exact trimStart_of_head (h.second_ink c List.mem_cons_self)
  simp only [ofString?, hline, htoken, hafter, htrim, htoken', hafter']
  rw [nonempty?_eq_some_iff.mpr ⟨h.first_ne, rfl⟩, nonempty?_eq_some_iff.mpr ⟨h.second_ne, rfl⟩]
  rfl

theorem exists_splits_of_ofString? (h : ofString? line = some m) :
    ∃ gap tail, Splits line.toList m.typeName.toList gap m.declarator.toList tail := by
  simp only [ofString?, Option.bind_eq_bind, Option.bind_eq_some_iff, nonempty?_eq_some_iff] at h
  obtain ⟨first, ⟨hne, hfirst⟩, second, ⟨hne', hsecond⟩, hm⟩ := h
  cases hm
  subst hfirst hsecond
  obtain ⟨gap, hgap, hb⟩ := exists_append_trimStart (afterToken line.toList)
  refine ⟨gap, afterToken (trimStart (afterToken line.toList)), ?_⟩
  simp only [String.toList_ofList]
  refine ⟨?_, hne, fun _ => isBlank_of_mem_token, ?_, hb, hne', fun _ => isBlank_of_mem_token,
    fun _ => isBlank_of_head?_afterToken⟩
  · rw [List.append_assoc, List.append_assoc, token_append_afterToken, ← hgap, token_append_afterToken]
  · -- behind the first token there is a blank, and the second token starts with none
    rintro rfl
    rw [List.nil_append] at hgap
    obtain ⟨c, rest, hc⟩ := List.exists_cons_of_ne_nil hne'
    have hhead : c ∈ (afterToken line.toList).head? := by
      rw [hgap, ← token_append_afterToken (trimStart _), hc]
      rfl
    have hblank := isBlank_of_head?_afterToken hhead
    rw [isBlank_of_mem_token (by rw [hc]; exact List.mem_cons_self)] at hblank
    cases hblank

/-- A member line is split where its tokens are, and nothing of it is lost. -/
theorem ofString?_eq_some_iff :
    ofString? line = some m ↔ ∃ gap tail,
      Splits line.toList m.typeName.toList gap m.declarator.toList tail ∧ m.description.toList = trim tail := by
  constructor
  · intro h
    obtain ⟨gap, tail, hs⟩ := exists_splits_of_ofString? h
    have hm := h.symm.trans (ofString?_of_splits hs)
    exact ⟨gap, tail, hs, by rw [Option.some.inj hm, String.toList_ofList]⟩
  · rintro ⟨gap, tail, hs, hd⟩
    rw [ofString?_of_splits hs, ← hd]
    simp

theorem ofString?_eq_none_iff :
    ofString? line = none ↔ (∃ b ∈ line.toList.head?, isBlank b = true) ∨ (words line.toList).length < 2 := by
  have hsome : (∃ m, ofString? line = some m) ↔
      ∃ first gap second tail, Splits line.toList first gap second tail := by
    constructor
    · rintro ⟨m, hm⟩
      obtain ⟨gap, tail, hs⟩ := exists_splits_of_ofString? hm
      exact ⟨_, gap, _, tail, hs⟩
    · rintro ⟨first, gap, second, tail, hs⟩
      exact ⟨_, ofString?_of_splits hs⟩
  rw [exists_splits_iff, ← Option.isSome_iff_exists] at hsome
  rw [← Option.not_isSome_iff_eq_none, hsome, not_and_or, Nat.not_le]
  simp

end MemberLine

theorem readHeader_eq (text : String) (number : Nat) :
    readHeader text number =
      match (Text.words text.toList)[1]? with
      | some name => .ok (String.ofList name)
      | none => .error (.malformedHeader number text) := by
  rw [readHeader, headerName?, ← Text.getElem?_one_words]
  cases (Text.words text.toList)[1]? <;> rfl

/-! ### The grammar -/

namespace Grammar

open Pattern Text

def blanks : Pattern (List Char) := atLeastOne (char isBlank)

/-- Any character but a blank. -/
def ink : Pattern Char := do
  absent (char isBlank)
  char fun _ => true

def token : Pattern (List Char) := atLeastOne ink

/-- Blanks and everything behind them. -/
def more : Pattern (List Char) := do
  let _ ← blanks
  many (char fun _ => true)

/-- Two tokens with blanks between them, and anything behind more blanks. -/
def line : Pattern (List Char × List Char × Option (List Char)) := do
  let first ← token
  let _ ← blanks
  let second ← token
  let description ← optional more
  ending
  return (first, second, description)

variable {cs first second tail rest : List Char} {description : Option (List Char)}

theorem ink_eq : ink = char isInk := by
  funext cs
  rcases cs with _ | ⟨c, cs⟩
  · rfl
  · cases hc : isBlank c <;> simp [ink, absent, char, isInk, hc, StateT.run, bind, StateT.bind]

theorem run_token_eq_some_iff :
    token.run cs = some (first, rest) ↔
      first ≠ [] ∧ (∀ c ∈ first, isBlank c = false) ∧ cs = first ++ rest ∧ ∀ b ∈ rest.head?, isBlank b = true := by
  rw [token, ink_eq, run_atLeastOne_char_eq_some_iff]
  simp [isInk]

theorem run_blanks_eq_some_iff {gap : List Char} :
    blanks.run cs = some (gap, rest) ↔
      gap ≠ [] ∧ (∀ b ∈ gap, isBlank b = true) ∧ cs = gap ++ rest ∧ ∀ c ∈ rest.head?, isBlank c = false :=
  run_atLeastOne_char_eq_some_iff

theorem run_more_cons {b : Char} (hb : isBlank b = true) :
    more.run (b :: tail) = some (trimStart (b :: tail), []) := by
  have hblanks : blanks.run (b :: tail) = some (b :: tail.takeWhile isBlank, trimStart (b :: tail)) := by
    rw [run_blanks_eq_some_iff, trimStart, List.dropWhile_cons_of_pos hb]
    refine ⟨List.cons_ne_nil _ _, ?_, ?_, fun c hc => isBlank_of_head?_trimStart hc⟩
    · rw [List.forall_mem_cons]
      exact ⟨hb, fun c => List.mem_takeWhile_imp⟩
    · rw [List.cons_append, List.takeWhile_append_dropWhile]
  rw [more, run_bind_eq_some_iff]
  refine ⟨_, _, hblanks, ?_⟩
  rw [run_many_char, List.takeWhile_eq_self_iff.mpr (by simp), List.dropWhile_eq_nil_iff.mpr (by simp)]

/-- What follows the second token is taken to its end, the blanks in front of it apart. -/
theorem run_optional_more (h : ∀ b ∈ tail.head?, isBlank b = true) :
    (optional more).run tail = some (if tail = [] then none else some (trimStart tail), []) := by
  rw [run_optional_eq_some_iff]
  rcases tail with _ | ⟨b, tail⟩
  · exact .inr ⟨rfl, rfl, rfl⟩
  · exact .inl ⟨_, rfl, run_more_cons (h b rfl)⟩

/-- The grammar reads a line that can be split, and no other, and gives its parts. -/
theorem run_line_eq_some_iff :
    line.run cs = some ((first, second, description), rest) ↔
      rest = [] ∧ ∃ gap tail, Splits cs first gap second tail ∧
        description = if tail = [] then none else some (trimStart tail) := by
  simp only [line, run_bind_eq_some_iff, run_token_eq_some_iff, run_blanks_eq_some_iff, run_ending_eq_some_iff,
    run_pure_eq_some_iff, Prod.mk.injEq]
  constructor
  · rintro ⟨first, mid, ⟨hne, hfirst, rfl, -⟩, gap, mid', ⟨hgap, hb, rfl, -⟩, second, tail,
      ⟨hne', hsecond, rfl, htail⟩, description, mid'', hmore, -, -, ⟨rfl, rfl⟩, ⟨rfl, rfl, rfl⟩, rfl⟩
    rw [run_optional_more htail] at hmore
    cases hmore
    exact ⟨rfl, gap, tail, ⟨by simp, hne, hfirst, hgap, hb, hne', hsecond, htail⟩, rfl⟩
  · rintro ⟨rfl, gap, tail, hs, rfl⟩
    refine ⟨first, gap ++ second ++ tail, ⟨hs.first_ne, hs.first_ink, by simp [hs.eq], hs.gap_head⟩,
      gap, second ++ tail, ⟨hs.gap_ne, hs.gap_blank, by simp, ?_⟩,
      second, tail, ⟨hs.second_ne, hs.second_ink, rfl, hs.tail_head⟩,
      _, [], run_optional_more hs.tail_head, (), [], ⟨rfl, rfl⟩, ⟨rfl, rfl, rfl⟩, rfl⟩
    -- the gap is taken to its end
    obtain ⟨c, second, rfl⟩ := List.exists_cons_of_ne_nil hs.second_ne
    rintro b ⟨⟩
    exact hs.second_ink c List.mem_cons_self

end Grammar

/-! ### Reading lines -/

/-- The member line that a text gives by the grammar. -/
def Grammar.memberLine? (text : String) : Option MemberLine :=
  (line.run text.toList).map fun ((typeName, declarator, description), _) =>
    ⟨String.ofList typeName, String.ofList declarator, String.ofList (Text.trim (description.getD []))⟩

/-- The name that a text gives as a header by the grammar. -/
def Grammar.headerName? (text : String) : Option String :=
  (line.run (Text.trim text.toList)).map fun ((_, name, _), _) => String.ofList name

theorem Text.trim_description (tail : List Char) :
    trim ((if tail = [] then none else some (trimStart tail)).getD []) = trim tail := by
  split
  · next h => rw [h]; rfl
  · rw [Option.getD_some, trim, trim, trimStart, trimStart, List.dropWhile_idempotent]

theorem Grammar.memberLine?_eq (text : String) : memberLine? text = MemberLine.ofString? text := by
  ext m
  rw [memberLine?, Option.map_eq_some_iff, MemberLine.ofString?_eq_some_iff]
  constructor
  · rintro ⟨⟨⟨first, second, description⟩, rest⟩, hrun, rfl⟩
    obtain ⟨-, gap, tail, hs, rfl⟩ := run_line_eq_some_iff.mp hrun
    refine ⟨gap, tail, ?_, ?_⟩
    · simpa using hs
    · rw [String.toList_ofList, Text.trim_description]
  · rintro ⟨gap, tail, hs, hd⟩
    refine ⟨_, run_line_eq_some_iff.mpr ⟨rfl, gap, tail, hs, rfl⟩, ?_⟩
    simp only [Text.trim_description, ← hd, String.ofList_toList]

theorem Grammar.headerName?_eq (text : String) : headerName? text = RecordLayout.headerName? text := by
  have hname : RecordLayout.headerName? text = (Text.words (Text.trim text.toList))[1]?.map String.ofList := by
    rw [RecordLayout.headerName?, ← Text.getElem?_one_words, Text.words_trim]
  rw [hname, headerName?]
  cases hrun : line.run (Text.trim text.toList) with
  | some parts =>
    obtain ⟨-, gap, tail, hs, -⟩ := run_line_eq_some_iff.mp hrun
    rw [hs.words_eq]
    rfl
  | none =>
    -- a text without blanks around it has two parts as soon as it has two tokens
    have hnone : ¬∃ first gap second tail, Text.Splits (Text.trim text.toList) first gap second tail := by
      rintro ⟨first, gap, second, tail, hs⟩
      rw [run_line_eq_some_iff.mpr ⟨rfl, gap, tail, hs, rfl⟩] at hrun
      cases hrun
    rw [Text.exists_splits_iff, not_and] at hnone
    have hlt := hnone fun b hb => Text.isBlank_of_head?_trimStart (by rwa [Text.trimStart_trim])
    rw [List.getElem?_eq_none (by omega)]
    rfl

/-- Lines are split exactly, and nothing of them is lost. A member line that starts with a blank or has fewer
than two runs is none; any other has its first two runs as its type and its declarator, and what follows them,
without the blanks around it, as its description. A header has its second run as its name, if there is one. The
grammar reads both in the same way. -/
theorem lines_split_exactly (text : String) (number : Nat) :
    ∃ runs, (∀ ts, Text.Runs text.toList ts ↔ ts = runs) ∧
      (MemberLine.ofString? text = none ↔ (∃ b ∈ text.toList.head?, isBlank b = true) ∨ runs.length < 2) ∧
      (∀ m, MemberLine.ofString? text = some m ↔ ∃ gap tail later,
        Text.Splits text.toList m.typeName.toList gap m.declarator.toList tail ∧
        m.description.toList = Text.trim tail ∧ runs = m.typeName.toList :: m.declarator.toList :: later) ∧
      (readHeader text number =
        match runs[1]? with
        | some name => .ok (String.ofList name)
        | none => .error (.malformedHeader number text)) ∧
      Grammar.memberLine? text = MemberLine.ofString? text ∧
      Grammar.headerName? text = headerName? text := by
  refine ⟨Text.words text.toList, fun ts => Text.runs_iff, MemberLine.ofString?_eq_none_iff, fun m => ?_,
    readHeader_eq text number, Grammar.memberLine?_eq text, Grammar.headerName?_eq text⟩
  rw [MemberLine.ofString?_eq_some_iff]
  constructor
  · rintro ⟨gap, tail, hs, hd⟩
    exact ⟨gap, tail, _, hs, hd, hs.words_eq⟩
  · rintro ⟨gap, tail, -, hs, hd, -⟩
    exact ⟨gap, tail, hs, hd⟩

end RecordLayout
