import RecordLayout.Proofs.Declarators
import Mathlib

/-!
# The grammar of declarators

The grammar reads a declarator from left to right. It takes characters for the identifier until what is
left is a suffix, and then the suffix: a length if there is one, a semicolon if there is one, and the
end. What a piece has taken it keeps, so a text that could be read by taking less might be refused. None is
(`Grammar.run_suffix_eq_some_iff`), and a declarator is cut at the least position behind which one of the
four texts of a suffix stands, by the grammar (`Grammar.run_declarator`) as by the reader
(`Suffix.exists_isLeast_cut`).
-/

namespace RecordLayout

/-! ### The texts of a suffix -/

namespace Suffix

/-- The text of a number and its value. -/
inductive Numeral : List Char → Int → Prop
  | plain {ds} : ds ≠ [] → (∀ d ∈ ds, d.isDigit = true) → Numeral ds (Nat.ofDigitChars 10 ds 0)
  | minus {ds} : ds ≠ [] → (∀ d ∈ ds, d.isDigit = true) → Numeral ('-' :: ds) (-Nat.ofDigitChars 10 ds 0)

/-- The text of a suffix and what it says. -/
inductive Written : List Char → Suffix → Prop
  | empty : Written [] ⟨none, false⟩
  | semicolon : Written [';'] ⟨none, true⟩
  | length {ds n} : Numeral ds n → Written (bracketed ds) ⟨some n, false⟩
  | closed {ds n} : Numeral ds n → Written (bracketed ds ++ [';']) ⟨some n, true⟩

variable {cs ds : List Char} {n : Int} {suffix : Suffix}

theorem Numeral.number?_eq (h : Numeral ds n) : number? ds = some n := by
  cases h with
  | plain hne hd => exact number?_digits hne hd
  | minus hne hd => exact if_pos (by simpa using ⟨hne, hd⟩)

theorem IsNumber.exists_numeral (h : IsNumber ds) : ∃ n, Numeral ds n := by
  obtain ⟨minus, ds, rfl, rfl | rfl, hne, hd⟩ := h
  · exact ⟨_, .plain hne hd⟩
  · exact ⟨_, .minus hne hd⟩

theorem ofChars?_eq_some_iff : ofChars? cs = some suffix ↔ Written cs suffix := by
  constructor
  · intro h
    rcases ofChars?_cases h with rfl | rfl | ⟨ds, hd, hcs⟩
    · cases h
      exact .empty
    · cases h
      exact .semicolon
    · obtain ⟨n, hn⟩ := hd.exists_numeral
      rcases hcs with rfl | rfl
      · rw [ofChars?_open hn.number?_eq] at h
        cases h
        exact .length hn
      · rw [ofChars?_closed hn.number?_eq] at h
        cases h
        exact .closed hn
  · rintro (_ | _ | hn | hn)
    · rfl
    · rfl
    · exact ofChars?_open hn.number?_eq
    · exact ofChars?_closed hn.number?_eq

/-- The positions behind which a suffix stands. -/
def Cuts (cs : List Char) : Set Nat := {q | ∃ suffix, Written (cs.drop q) suffix}

theorem length_mem_cuts (cs : List Char) : cs.length ∈ Cuts cs := by
  refine ⟨⟨none, false⟩, ?_⟩
  rw [List.drop_length]
  exact .empty

/-- A declarator is cut at the least position behind which a suffix stands. -/
theorem exists_isLeast_cut (cs : List Char) :
    ∃ p suffix, IsLeast (Cuts cs) p ∧ Written (cs.drop p) suffix ∧ splitDeclarator cs = (cs.take p, suffix) := by
  have hp : IsLeast (Cuts cs) (sInf (Cuts cs)) := isLeast_csInf ⟨_, length_mem_cuts cs⟩
  generalize sInf (Cuts cs) = p at hp
  obtain ⟨suffix, hs⟩ := hp.1
  refine ⟨p, suffix, hp, hs, ?_⟩
  conv_lhs => rw [← List.take_append_drop p cs]
  refine splitDeclarator_append (ofChars?_eq_some_iff.mpr hs) fun last hne hlast => ?_
  cases hw : ofChars? (last ++ cs.drop p) with
  | none => rfl
  | some earlier =>
    -- the text would be cut in front of `last`, which is not empty
    obtain ⟨lead, hlead⟩ := hlast
    have hdrop : cs.drop lead.length = last ++ cs.drop p := by
      conv_lhs => rw [← List.take_append_drop p cs, ← hlead, List.append_assoc, List.drop_left]
    have hcut : lead.length ∈ Cuts cs := ⟨earlier, ofChars?_eq_some_iff.mp (hdrop ▸ hw)⟩
    have hle : p ≤ lead.length := hp.2 hcut
    have hlen := congrArg List.length hlead
    rw [List.length_append, List.length_take] at hlen
    have hpos := List.length_pos_of_ne_nil hne
    omega

end Suffix

/-! ### Patterns -/

/-- Reads the start of a text, and leaves the rest. -/
abbrev Pattern (α : Type) : Type := StateT (List Char) Option α

namespace Pattern

variable {α β : Type}

/-- One character. -/
def char (p : Char → Bool) : Pattern Char
  | [] => none
  | c :: cs => if p c then some (c, cs) else none

/-- Reads nothing, and that only where the pattern cannot be read. -/
def absent (a : Pattern α) : Pattern Unit := fun cs => if (a.run cs).isSome then none else some ((), cs)

/-- The end of the text. -/
def ending : Pattern Unit := fun cs => if cs = [] then some ((), []) else none

/-- The pattern as often as it can be read, up to a time when it takes nothing. -/
def many (a : Pattern α) : Pattern (List α)
  | cs =>
    match a.run cs with
    | none => some ([], cs)
    | some (x, rest) =>
      if rest.length < cs.length then (many a rest).map fun (xs, rest) => (x :: xs, rest)
      else some ([x], rest)
termination_by cs => cs.length

/-- The pattern as often as it can be read, but at least once. -/
def atLeastOne (a : Pattern α) : Pattern (List α) := do
  let x ← a
  let xs ← many a
  return x :: xs

variable {a : Pattern α} {f : α → Pattern β} {p : Char → Bool} {c : Char} {cs rest : List Char}

theorem run_bind_eq_some_iff {y : β} :
    (a >>= f).run cs = some (y, rest) ↔ ∃ x mid, a.run cs = some (x, mid) ∧ (f x).run mid = some (y, rest) := by
  rw [StateT.run_bind, Option.bind_eq_bind, Option.bind_eq_some_iff]
  simp

theorem run_pure_eq_some_iff {x y : α} :
    (pure x : Pattern α).run cs = some (y, rest) ↔ x = y ∧ cs = rest := by
  rw [StateT.run_pure]
  simp

theorem run_char_eq_some_iff : (char p).run cs = some (c, rest) ↔ p c = true ∧ cs = c :: rest := by
  cases cs with
  | nil => simp [char, StateT.run]
  | cons d cs =>
    simp only [char, StateT.run, Option.ite_none_right_eq_some, Option.some.injEq, Prod.mk.injEq, List.cons.injEq]
    constructor
    · rintro ⟨hd, rfl, rfl⟩
      exact ⟨hd, rfl, rfl⟩
    · rintro ⟨hd, rfl, rfl⟩
      exact ⟨hd, rfl, rfl⟩

theorem run_optional_eq_some_iff {x : Option α} :
    (optional a).run cs = some (x, rest) ↔
      (∃ y, x = some y ∧ a.run cs = some (y, rest)) ∨ (x = none ∧ cs = rest ∧ a.run cs = none) := by
  rw [optional]
  cases ha : a.run cs with
  | none => simp [eq_comm, ha]
  | some yr => simp [eq_comm, Prod.ext_iff, ha]

theorem run_ending_eq_some_iff {u : Unit} : ending.run cs = some (u, rest) ↔ cs = [] ∧ rest = [] := by
  show (if cs = [] then some ((), []) else none) = some (u, rest) ↔ _
  simp [eq_comm]

theorem run_many_of_none (h : a.run cs = none) : (many a).run cs = some ([], cs) := by
  show many a cs = _
  rw [many, h]

theorem run_many_of_some {x : α} (h : a.run cs = some (x, rest)) (hlt : rest.length < cs.length) :
    (many a).run cs = ((many a).run rest).map fun (xs, rest) => (x :: xs, rest) := by
  show many a cs = _
  rw [many, h]
  exact if_pos hlt

theorem run_many_char (p : Char → Bool) (cs : List Char) :
    (many (char p)).run cs = some (cs.takeWhile p, cs.dropWhile p) := by
  induction cs with
  | nil => exact run_many_of_none rfl
  | cons c cs ih =>
    by_cases hc : p c = true
    · have hrun : (char p).run (c :: cs) = some (c, cs) := if_pos hc
      rw [run_many_of_some hrun (Nat.lt_succ_self _), ih, List.takeWhile_cons_of_pos hc, List.dropWhile_cons_of_pos hc]
      rfl
    · have hrun : (char p).run (c :: cs) = none := if_neg hc
      rw [run_many_of_none hrun, List.takeWhile_cons_of_neg hc, List.dropWhile_cons_of_neg hc]

theorem run_atLeastOne_char_eq_some_iff {ds : List Char} :
    (atLeastOne (char p)).run cs = some (ds, rest) ↔
      ds ≠ [] ∧ (∀ d ∈ ds, p d = true) ∧ cs = ds ++ rest ∧ ∀ c ∈ rest.head?, p c = false := by
  simp only [atLeastOne, run_bind_eq_some_iff, run_char_eq_some_iff, run_pure_eq_some_iff, run_many_char,
    Option.some.injEq, Prod.mk.injEq]
  constructor
  · rintro ⟨d, cs, ⟨hd, rfl⟩, ds, rest, ⟨rfl, rfl⟩, rfl, rfl⟩
    refine ⟨List.cons_ne_nil _ _, ?_, ?_, fun c hc => ?_⟩
    · rintro e (_ | ⟨_, he⟩)
      · exact hd
      · exact List.mem_takeWhile_imp he
    · rw [List.cons_append, List.takeWhile_append_dropWhile]
    · have hhead := List.head?_dropWhile_not p cs
      rw [Option.mem_def.mp hc] at hhead
      simpa using hhead
  · rintro ⟨hne, hds, rfl, hrest⟩
    obtain ⟨d, ds, rfl⟩ := List.exists_cons_of_ne_nil hne
    rw [List.forall_mem_cons] at hds
    have hstop : rest.takeWhile p = [] ∧ rest.dropWhile p = rest := by
      cases rest with
      | nil => exact ⟨rfl, rfl⟩
      | cons c rest =>
        have hc := hrest c rfl
        simp [hc]
    refine ⟨d, ds ++ rest, ⟨hds.1, rfl⟩, ds, rest, ⟨?_, ?_⟩, rfl, rfl⟩
    · rw [List.takeWhile_append_of_pos hds.2, hstop.1, List.append_nil]
    · rw [List.dropWhile_append_of_pos hds.2, hstop.2]

end Pattern

/-! ### The grammar -/

namespace Grammar

open Pattern Suffix

/-- An optional minus and decimal digits. -/
def number : Pattern Int := do
  let minus ← optional (char (· == '-'))
  let digits ← atLeastOne (char Char.isDigit)
  let magnitude : Int := Nat.ofDigitChars 10 digits 0
  return if minus.isSome then -magnitude else magnitude

/-- A number in brackets. -/
def length : Pattern Int := do
  let _ ← char (· == '[')
  let n ← number
  let _ ← char (· == ']')
  return n

/-- What ends a text: an optional length and an optional semicolon. -/
def suffix : Pattern Suffix := do
  let length ← optional length
  let semicolon ← optional (char (· == ';'))
  ending
  return ⟨length, semicolon.isSome⟩

/-- Any character, but not where a suffix stands. -/
def letter : Pattern Char := do
  absent suffix
  char fun _ => true

def declarator : Pattern (List Char × Suffix) := do
  let identifier ← atLeastOne letter
  let suffix ← suffix
  return (identifier, suffix)

variable {cs rest : List Char} {n : Int} {s : Suffix}

theorem run_number_eq_some_iff :
    number.run cs = some (n, rest) ↔
      (∃ ds, Numeral ds n ∧ cs = ds ++ rest) ∧ ∀ c ∈ rest.head?, c.isDigit = false := by
  simp only [number, run_bind_eq_some_iff, run_optional_eq_some_iff, run_char_eq_some_iff, run_pure_eq_some_iff,
    run_atLeastOne_char_eq_some_iff]
  constructor
  · rintro ⟨minus, mid, hminus, ds, rest, ⟨hne, hds, rfl, hrest⟩, rfl, rfl⟩
    rcases hminus with ⟨c, rfl, hc, rfl⟩ | ⟨rfl, rfl, -⟩
    · rw [beq_iff_eq] at hc
      subst hc
      exact ⟨⟨'-' :: ds, .minus hne hds, rfl⟩, hrest⟩
    · exact ⟨⟨ds, .plain hne hds, rfl⟩, hrest⟩
  · rintro ⟨⟨ds, hn, rfl⟩, hrest⟩
    cases hn with
    | plain hne hds =>
      have hplain : (char (· == '-')).run (ds ++ rest) = none := by
        obtain ⟨d, ds, rfl⟩ := List.exists_cons_of_ne_nil hne
        refine if_neg fun hd => ?_
        rw [beq_iff_eq.mp hd] at hds
        exact absurd (hds '-' List.mem_cons_self) (by decide)
      exact ⟨none, ds ++ rest, .inr ⟨rfl, rfl, hplain⟩, ds, rest, ⟨hne, hds, rfl, hrest⟩, rfl, rfl⟩
    | @minus ds hne hds =>
      exact ⟨some '-', ds ++ rest, .inl ⟨'-', rfl, rfl, rfl⟩, ds, rest, ⟨hne, hds, rfl, hrest⟩, rfl, rfl⟩

theorem run_length_eq_some_iff :
    length.run cs = some (n, rest) ↔ ∃ ds, Numeral ds n ∧ cs = bracketed ds ++ rest := by
  simp only [length, run_bind_eq_some_iff, run_char_eq_some_iff, run_pure_eq_some_iff, run_number_eq_some_iff]
  constructor
  · rintro ⟨c, mid, ⟨hc, rfl⟩, m, mid', ⟨⟨ds, hds, rfl⟩, -⟩, c', mid'', ⟨hc', rfl⟩, rfl, rfl⟩
    refine ⟨ds, hds, ?_⟩
    rw [beq_iff_eq] at hc hc'
    subst hc hc'
    simp [bracketed]
  · rintro ⟨ds, hds, rfl⟩
    refine ⟨'[', ds ++ ']' :: rest, ⟨rfl, by simp [bracketed]⟩, n, ']' :: rest, ⟨⟨ds, hds, rfl⟩, ?_⟩,
      ']', rest, ⟨rfl, rfl⟩, rfl, rfl⟩
    rintro c hc
    cases hc
    decide

theorem run_suffix_of {len : Option Int} {semicolon : Option Char} {mid : List Char}
    (hlen : (optional length).run cs = some (len, mid))
    (hsemi : (optional (char (· == ';'))).run mid = some (semicolon, [])) :
    suffix.run cs = some (⟨len, semicolon.isSome⟩, []) :=
  run_bind_eq_some_iff.mpr ⟨_, _, hlen, run_bind_eq_some_iff.mpr ⟨_, _, hsemi, rfl⟩⟩

theorem run_suffix_of_written (h : Written cs s) : suffix.run cs = some (s, []) := by
  have hsemi : (optional (char (· == ';'))).run [';'] = some (some ';', []) := rfl
  have hend : (optional (char (· == ';'))).run [] = some (none, []) := rfl
  cases h with
  | empty => exact run_suffix_of rfl hend
  | semicolon => exact run_suffix_of rfl hsemi
  | @length ds n hn =>
    have hlen : length.run (bracketed ds) = some (n, []) :=
      run_length_eq_some_iff.mpr ⟨ds, hn, (List.append_nil _).symm⟩
    exact run_suffix_of (run_optional_eq_some_iff.mpr (.inl ⟨n, rfl, hlen⟩)) hend
  | @closed ds n hn =>
    have hlen : length.run (bracketed ds ++ [';']) = some (n, [';']) := run_length_eq_some_iff.mpr ⟨ds, hn, rfl⟩
    exact run_suffix_of (run_optional_eq_some_iff.mpr (.inl ⟨n, rfl, hlen⟩)) hsemi

/-- A suffix is read where one stands, and only there, although no piece ever gives back what it took. -/
theorem run_suffix_eq_some_iff : suffix.run cs = some (s, rest) ↔ rest = [] ∧ Written cs s := by
  constructor
  · simp only [suffix, run_bind_eq_some_iff, run_optional_eq_some_iff, run_char_eq_some_iff, run_pure_eq_some_iff,
      run_ending_eq_some_iff]
    rintro ⟨len, mid, hlen, semicolon, -, hsemi, -, -, ⟨rfl, rfl⟩, rfl, rfl⟩
    refine ⟨rfl, ?_⟩
    rcases hlen with ⟨n, rfl, hlen⟩ | ⟨rfl, rfl, -⟩
    · obtain ⟨ds, hn, rfl⟩ := run_length_eq_some_iff.mp hlen
      rcases hsemi with ⟨c, rfl, hc, rfl⟩ | ⟨rfl, rfl, -⟩
      · rw [beq_iff_eq.mp hc]
        exact .closed hn
      · rw [List.append_nil]
        exact .length hn
    · rcases hsemi with ⟨c, rfl, hc, rfl⟩ | ⟨rfl, rfl, -⟩
      · rw [beq_iff_eq.mp hc]
        exact .semicolon
      · exact .empty
  · rintro ⟨rfl, hw⟩
    exact run_suffix_of_written hw

theorem run_letter_of_written (h : Written cs s) : letter.run cs = none := by
  have habsent : (absent suffix).run cs = none := if_pos (by rw [run_suffix_of_written h]; rfl)
  rw [letter, StateT.run_bind, habsent]
  rfl

theorem run_letter_cons {c : Char} (h : ∀ s, ¬Written (c :: cs) s) : letter.run (c :: cs) = some (c, cs) := by
  have hs : ¬(suffix.run (c :: cs)).isSome := by
    intro hsome
    obtain ⟨⟨s, rest⟩, hs⟩ := Option.isSome_iff_exists.mp hsome
    exact h s (run_suffix_eq_some_iff.mp hs).2
  have habsent : (absent suffix).run (c :: cs) = some ((), c :: cs) := if_neg hs
  rw [letter, StateT.run_bind, habsent]
  rfl

variable {p : Nat}

/-- In front of the cut a letter is taken, and the cut stays where it is. -/
theorem exists_letter (h : IsLeast (Cuts cs) (p + 1)) :
    ∃ c rest, cs = c :: rest ∧ letter.run cs = some (c, rest) ∧ IsLeast (Cuts rest) p := by
  have hstart : ∀ s, ¬Written cs s := by
    intro s hs
    have hle := h.2 (show 0 ∈ Cuts cs from ⟨s, hs⟩)
    omega
  cases cs with
  | nil => exact absurd .empty (hstart _)
  | cons c rest =>
    refine ⟨c, rest, rfl, run_letter_cons hstart, h.1, fun q hq => ?_⟩
    have hle := h.2 (show q + 1 ∈ Cuts (c :: rest) from hq)
    omega

theorem run_many_letter (h : IsLeast (Cuts cs) p) : (many letter).run cs = some (cs.take p, cs.drop p) := by
  induction p generalizing cs with
  | zero =>
    obtain ⟨s, hs⟩ := h.1
    exact run_many_of_none (run_letter_of_written hs)
  | succ p ih =>
    obtain ⟨c, rest, rfl, hletter, hrest⟩ := exists_letter h
    rw [run_many_of_some hletter (Nat.lt_succ_self _), ih hrest]
    rfl

/-- The grammar cuts a declarator where the rule cuts it, and refuses one that starts with a suffix. -/
theorem run_declarator (h : IsLeast (Cuts cs) p) (hs : Written (cs.drop p) s) :
    declarator.run cs = if p = 0 then none else some ((cs.take p, s), []) := by
  cases p with
  | zero =>
    have hletter : letter.run cs = none := run_letter_of_written hs
    have hletters : (atLeastOne letter).run cs = none := by
      rw [atLeastOne, StateT.run_bind, hletter]
      rfl
    rw [if_pos rfl, declarator, StateT.run_bind, hletters]
    rfl
  | succ p =>
    obtain ⟨c, rest, rfl, hletter, hrest⟩ := exists_letter h
    have hletters : (atLeastOne letter).run (c :: rest) = some (c :: rest.take p, rest.drop p) :=
      run_bind_eq_some_iff.mpr ⟨c, rest, hletter, run_bind_eq_some_iff.mpr ⟨_, _, run_many_letter hrest, rfl⟩⟩
    have hsuffix : suffix.run (rest.drop p) = some (s, []) := run_suffix_of_written hs
    rw [if_neg (Nat.succ_ne_zero p)]
    exact run_bind_eq_some_iff.mpr ⟨_, _, hletters, run_bind_eq_some_iff.mpr ⟨_, _, hsuffix, rfl⟩⟩

end Grammar

/-! ### Reading declarators -/

namespace Declarator

open Suffix

/-- Declarators are read by one rule. Let `p` be the least position behind which a suffix stands: nothing,
`;`, or a number in brackets with or without `;`. A declarator with nothing in front of it is malformed,
one with a number that is no array length has a bad size, and any other gives what stands in front of `p`
as its identifier. The grammar cuts it at the same place. -/
theorem declarator_read_by_one_rule (token : String) (line : Nat) :
    (∃ p suffix, IsLeast (Cuts token.toList) p ∧ Written (token.toList.drop p) suffix ∧
      Grammar.declarator.run token.toList = (if p = 0 then none else some ((token.toList.take p, suffix), [])) ∧
      (parsed token line = .error (.malformedMember line token) ↔ p = 0) ∧
      (parsed token line = .error (.invalidArraySize token line) ↔ p ≠ 0 ∧ suffix.OutOfRange) ∧
      ∀ d, parsed token line = .ok d ↔
        p ≠ 0 ∧ ¬suffix.OutOfRange ∧ d = ⟨String.ofList (token.toList.take p), suffix.count⟩) ∧
    ∀ identifier n, identifier ≠ "" → n < 2 ^ 63 →
      parsed (identifier ++ "[" ++ toString n ++ "];") line = .ok ⟨identifier, some n⟩ := by
  refine ⟨?_, fun identifier n hi hn => parsed_array hi hn⟩
  obtain ⟨p, suffix, hp, hs, hsplit⟩ := exists_isLeast_cut token.toList
  refine ⟨p, suffix, hp, hs, Grammar.run_declarator hp hs, ?_⟩
  have hnil : token.toList.take p = [] ↔ p = 0 := by
    have hle : p ≤ token.toList.length := hp.2 (length_mem_cuts _)
    rw [← List.length_eq_zero_iff, List.length_take, Nat.min_eq_left hle]
  by_cases h0 : p = 0
  · have hparsed : parsed token line = .error (.malformedMember line token) :=
      parsed_of_nil (by rw [hsplit, hnil.mpr h0])
    simp [hparsed, h0]
  · have hne : token.toList.take p ≠ [] := fun h => h0 (hnil.mp h)
    by_cases hr : suffix.OutOfRange
    · simp [parsed_of_outOfRange hsplit hne hr, h0, hr]
    · simp [parsed_of_inRange hsplit hne hr, h0, hr, eq_comm]

/-- An identifier that itself ends in a length, and one that ends in a declarator. -/
theorem declarator_read_by_one_rule_nested :
    parsed ("a[1]" ++ "[" ++ toString 2 ++ "];") 1 = .ok ⟨"a[1]", some 2⟩ ∧
    parsed ("a[3];" ++ "[" ++ toString (2 ^ 63 - 1) ++ "];") 1 = .ok ⟨"a[3];", some (2 ^ 63 - 1)⟩ :=
  ⟨(declarator_read_by_one_rule "" 1).2 "a[1]" 2 (by decide) (by decide),
    (declarator_read_by_one_rule "" 1).2 "a[3];" (2 ^ 63 - 1) (by decide) (by decide)⟩

end Declarator

end RecordLayout
