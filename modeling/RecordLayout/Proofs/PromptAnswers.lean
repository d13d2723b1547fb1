import RecordLayout.Proofs.TextLines
import RecordLayout.SizeSource.Prompt
import Mathlib

/-!
# The answers at the terminal

Each question takes lines from the terminal until one is an answer, so that the questions get the
answers among the lines in their order, and later questions get none. A line that is no answer costs one
more request (`run_attempts_refused`); what one question leaves is where the next one starts
(`exists_run_ask`).
-/

namespace RecordLayout

namespace Text

/-- An optional sign and decimal digits, and the number that they stand for. -/
inductive Signed : List Char → Int → Prop
  | plain {ds} : ds ≠ [] → (∀ d ∈ ds, d.isDigit = true) → Signed ds (Nat.ofDigitChars 10 ds 0)
  | plus {ds} : ds ≠ [] → (∀ d ∈ ds, d.isDigit = true) → Signed ('+' :: ds) (Nat.ofDigitChars 10 ds 0)
  | minus {ds} : ds ≠ [] → (∀ d ∈ ds, d.isDigit = true) → Signed ('-' :: ds) (-Nat.ofDigitChars 10 ds 0)

/-- A number as `Signed` has it, within the range of 64 bits. -/
def Signed64 (cs : List Char) (n : Int) : Prop := Signed cs n ∧ -2 ^ 63 ≤ n ∧ n < 2 ^ 63

variable {cs ds : List Char} {n : Int}

theorem le_ofDigitChars (cs : List Char) (n : Nat) : n ≤ Nat.ofDigitChars 10 cs n := by
  induction cs generalizing n with
  | nil => simp
  | cons c cs ih =>
    rw [Nat.ofDigitChars_cons]
    have := ih (10 * n + (c.toNat - '0'.toNat))
    omega

/-- A number that is past the limit stays past it, whatever digits follow. -/
theorem readMagnitude_eq_ok_iff {limit k m : Nat} {past : IntegerFault} (hk : k ≤ limit) :
    readMagnitude limit past k cs = .ok m ↔
      (∀ c ∈ cs, c.isDigit = true) ∧ Nat.ofDigitChars 10 cs k = m ∧ m ≤ limit := by
  induction cs generalizing k with
  | nil =>
    simp [readMagnitude]
    omega
  | cons c cs ih =>
    rw [readMagnitude, List.forall_mem_cons, Nat.ofDigitChars_cons]
    dsimp only
    split
    · next hc =>
      split
      · next hm => exact (ih hm).trans (by simp [hc])
      · next hm =>
        have := le_ofDigitChars cs (10 * k + (c.toNat - '0'.toNat))
        constructor
        · intro h; cases h
        · rintro ⟨-, rfl, hle⟩
          omega
    · next hc => simp [hc]

theorem map_readMagnitude_eq_ok_iff {limit : Nat} {past : IntegerFault} {sign : Nat → Int} :
    (sign <$> readMagnitude limit past 0 ds = .ok n) ↔
      (∀ d ∈ ds, d.isDigit = true) ∧ sign (Nat.ofDigitChars 10 ds 0) = n ∧ Nat.ofDigitChars 10 ds 0 ≤ limit := by
  constructor
  · intro h
    cases hr : readMagnitude limit past 0 ds with
    | error e => rw [hr] at h; cases h
    | ok m =>
      rw [hr] at h
      cases h
      obtain ⟨hd, rfl, hm⟩ := (readMagnitude_eq_ok_iff (Nat.zero_le _)).mp hr
      exact ⟨hd, rfl, hm⟩
  · rintro ⟨hd, rfl, hm⟩
    rw [(readMagnitude_eq_ok_iff (Nat.zero_le _)).mpr ⟨hd, rfl, hm⟩]
    rfl

theorem signed_plus_iff : Signed ('+' :: ds) n ↔
    ds ≠ [] ∧ (∀ d ∈ ds, d.isDigit = true) ∧ (Nat.ofDigitChars 10 ds 0 : Int) = n := by
  constructor
  · rintro (⟨-, hd⟩ | ⟨hne, hd⟩)
    · cases hd '+' (by simp)
    · exact ⟨hne, hd, rfl⟩
  · rintro ⟨hne, hd, rfl⟩
    exact .plus hne hd

theorem signed_minus_iff : Signed ('-' :: ds) n ↔
    ds ≠ [] ∧ (∀ d ∈ ds, d.isDigit = true) ∧ (-Nat.ofDigitChars 10 ds 0 : Int) = n := by
  constructor
  · rintro (⟨-, hd⟩ | _ | ⟨hne, hd⟩)
    · cases hd '-' (by simp)
    · exact ⟨hne, hd, rfl⟩
  · rintro ⟨hne, hd, rfl⟩
    exact .minus hne hd

theorem signed_plain_iff (hp : ∀ ds, cs ≠ '+' :: ds) (hm : ∀ ds, cs ≠ '-' :: ds) : Signed cs n ↔
    cs ≠ [] ∧ (∀ d ∈ cs, d.isDigit = true) ∧ (Nat.ofDigitChars 10 cs 0 : Int) = n := by
  constructor
  · rintro (⟨hne, hd⟩ | _ | _)
    · exact ⟨hne, hd, rfl⟩
    · exact absurd rfl (hp _)
    · exact absurd rfl (hm _)
  · rintro ⟨hne, hd, rfl⟩
    exact .plain hne hd

theorem readInteger_eq_ok_iff : readInteger cs = .ok n ↔ Signed64 cs n := by
  have hsize : UInt64.size / 2 = 2 ^ 63 := rfl
  unfold readInteger Signed64
  split
  · rw [signed_plain_iff (by simp) (by simp)]
    simp
  · rw [signed_plus_iff]
    simp
  · rw [signed_minus_iff]
    simp
  · next ds hne =>
    simp only [map_readMagnitude_eq_ok_iff, signed_plus_iff, hsize, Int.ofNat_eq_natCast]
    constructor
    · rintro ⟨hd, rfl, hle⟩
      exact ⟨⟨by simpa using hne, hd, rfl⟩, by omega, by omega⟩
    · rintro ⟨⟨-, hd, rfl⟩, -, hlt⟩
      exact ⟨hd, rfl, by omega⟩
  · next ds hne =>
    simp only [map_readMagnitude_eq_ok_iff, signed_minus_iff, hsize, Int.ofNat_eq_natCast]
    constructor
    · rintro ⟨hd, rfl, hle⟩
      exact ⟨⟨by simpa using hne, hd, rfl⟩, by omega, by omega⟩
    · rintro ⟨⟨-, hd, rfl⟩, hge, -⟩
      exact ⟨hd, rfl, by omega⟩
  · next hnil _ _ hplus hminus =>
    simp only [map_readMagnitude_eq_ok_iff, signed_plain_iff hplus hminus, hsize, Int.ofNat_eq_natCast]
    constructor
    · rintro ⟨hd, rfl, hle⟩
      exact ⟨⟨hnil, hd, rfl⟩, by omega, by omega⟩
    · rintro ⟨⟨-, hd, rfl⟩, -, hlt⟩
      exact ⟨hd, rfl, by omega⟩

end Text

namespace Prompt

open Text

variable {input : Source} {acc : Bytes} {name line : String} {rest : List (Except IoFault String)} {a : Answer}

/-- A line is an answer if it is a number other than zero, with blanks around it or without. -/
theorem answer?_eq_some_iff :
    answer? line = some a ↔ ∃ n, Signed64 (trim line.toList) n ∧ Answer.ofInt? n = some a := by
  unfold answer?
  simp only [← readInteger_eq_ok_iff]
  cases readInteger (trim line.toList) <;> simp

/-- Lines as they are written to the terminal. -/
def written (ls : List String) : Bytes := ls.flatMap fun l => Bytes.ofString (l ++ "\n")

/-- What is written for lines that are no answers. -/
def refusals (count : Nat) : List String :=
  (List.replicate count ["Input type size (\"-\" first means id is a class): ", "Invalid input!"]).flatten

/-- What is written for a question, if so many lines are refused before the attempt that ends it. -/
def transcript (name : String) (refused : Nat) : List String :=
  ("Could not determine size for: \"" ++ name ++ "\"") ::
    (refusals refused ++ ["Input type size (\"-\" first means id is a class): "])

theorem transcript_eq (name : String) (refused : Nat) :
    transcript name refused = question name :: (refusals refused ++ [request]) := rfl

theorem shownText_append (es es' : List Event) : shownText (es ++ es') = shownText es ++ shownText es' := by
  simp [shownText, List.filterMap_append]

theorem run_say (input : Source) (acc : Bytes) (line : String) :
    (say line).run ⟨input, .never, acc⟩ =
      ⟨.ok (), ⟨input, .never, acc ++ written [line]⟩, [.shown (written [line])]⟩ := by
  rw [written, List.flatMap_singleton]
  rfl

theorem run_flush (input : Source) (acc : Bytes) :
    flush.run ⟨input, .never, acc⟩ = ⟨.ok (), ⟨input, .never, acc⟩, []⟩ := rfl

theorem run_attempts_refused (h : answer? line = none) :
    (attempts name (.ok line :: rest)).run ⟨input, .never, acc⟩ =
      let o := (attempts name rest).run ⟨input.drop 1, .never, acc ++ written [request, refusal]⟩
      ⟨o.result, o.state, .shown (written [request]) :: .shown (written [refusal]) :: o.events⟩ := by
  rw [attempts]
  simp only [Action.run_bind, run_say, run_flush, Action.run_update, Action.run_ofExcept, h]
  simp [written]

/-- The attempt that ends a question: it makes one request, and uses up `count` lines. -/
def Ends (name : String) (rest : List (Except IoFault String)) (r : Option Answer) (count : Nat) : Prop :=
  ∀ input acc, ∃ es,
    (attempts name rest).run ⟨input, .never, acc⟩ =
      ⟨.ok r, ⟨input.drop count, .never, acc ++ written [request]⟩, es⟩ ∧ shownText es = written [request]

theorem drop_zero (input : Source) : input.drop 0 = input := by
  rw [Source.drop, List.drop_zero, Bytes.flatten_lines]

theorem ends_answered (name : String) (h : answer? line = some a) : Ends name (.ok line :: rest) (some a) 1 := by
  intro input acc
  rw [attempts]
  simp only [Action.run_bind, run_say, run_flush, Action.run_update, Action.run_ofExcept, h]
  exact ⟨_, rfl, by simp [shownText, Event.shown?]⟩

theorem ends_declined (name : String) : Ends name [] none 0 := by
  intro input acc
  rw [attempts, drop_zero]
  simp only [Action.run_bind, run_say, run_flush, Action.run_log, Action.run_pure]
  exact ⟨_, rfl, by simp [shownText, Event.shown?]⟩

theorem written_append (ls ls' : List String) : written (ls ++ ls') = written ls ++ written ls' :=
  List.flatMap_append

/-- Lines that are no answers are refused one after the other, and the attempts go on behind them. -/
theorem run_attempts_append (name : String) {bad : List String} (h : ∀ l ∈ bad, answer? l = none) (input : Source)
    (acc : Bytes) (rest : List (Except IoFault String)) :
    ∃ es, (attempts name (bad.map .ok ++ rest)).run ⟨input, .never, acc⟩ =
        (let o := (attempts name rest).run ⟨input.drop bad.length, .never, acc ++ written (refusals bad.length)⟩
        ⟨o.result, o.state, es ++ o.events⟩) ∧
      shownText es = written (refusals bad.length) := by
  induction bad generalizing input acc with
  | nil => exact ⟨[], by simp [drop_zero, refusals, written], rfl⟩
  | cons line bad ih =>
    obtain ⟨hline, hbad⟩ := List.forall_mem_cons.mp h
    have hsucc : refusals (bad.length + 1) = [request, refusal] ++ refusals bad.length := rfl
    obtain ⟨es, hrun, hes⟩ := ih hbad (input.drop 1) (acc ++ written [request, refusal])
    refine ⟨.shown (written [request]) :: .shown (written [refusal]) :: es, ?_, ?_⟩
    · rw [List.map_cons, List.cons_append, run_attempts_refused hline, hrun, Source.drop_drop, List.length_cons, hsucc,
        written_append, Nat.add_comm 1, List.append_assoc]
      rfl
    · rw [List.length_cons, hsucc, written_append, ← hes]
      simp [shownText, Event.shown?, written]

/-- A question costs a request for each line that is refused, and one for the attempt that ends it. -/
theorem exists_run_ask {bad : List String} {r : Option Answer} {count : Nat} (h : ∀ l ∈ bad, answer? l = none)
    (hlines : input.lines = bad.map .ok ++ rest) (hend : Ends name rest r count) (acc : Bytes) :
    ∃ es, (ask name).run ⟨input, .never, acc⟩ =
        ⟨.ok r, ⟨input.drop (bad.length + count), .never, acc ++ written (transcript name bad.length)⟩, es⟩ ∧
      shownText es = written (transcript name bad.length) := by
  obtain ⟨es, hrun, hes⟩ := run_attempts_append name h input (acc ++ written [question name]) rest
  obtain ⟨es', hlast, hes'⟩ := hend (input.drop bad.length)
    (acc ++ written [question name] ++ written (refusals bad.length))
  have htext : written (transcript name bad.length) =
      written [question name] ++ (written (refusals bad.length) ++ written [request]) := by
    rw [← written_append, ← written_append, transcript_eq]
    rfl
  refine ⟨.shown (written [question name]) :: (es ++ es'), ?_, ?_⟩
  · rw [hlast, Source.drop_drop] at hrun
    rw [ask]
    simp only [Action.run_bind, run_say, Action.run_state, hlines, hrun, htext, List.append_assoc]
    rfl
  · rw [htext, ← hes, ← hes', ← shownText_append]
    rfl

/-! ### One question after the other -/

/-- The outcomes of questions that are put in turn, each to the terminal that the one before it left. -/
def askEach : List String → Prompt → List (Outcome Prompt IoFault (Option Answer))
  | [], _ => []
  | name :: names, p =>
    let o := (ask name).run p
    o :: askEach names o.state

/-- How many of `total` lines are used up by `count` questions, if the answers stand at the places `good`. -/
def linesUsed (good : List Nat) (total : Nat) : Nat → Nat
  | 0 => 0
  | count + 1 => (good[count]?.map (· + 1)).getD total

/-- The places of the answers among lines, in ascending order. -/
structure Places (good : List Nat) (lines : List String) : Prop where
  ascending : good.Pairwise (· < ·)
  mem_iff : ∀ k, k ∈ good ↔ ∃ line a, lines[k]? = some line ∧ answer? line = some a

theorem exists_places (lines : List String) : ∃ good, Places good lines := by
  refine ⟨(List.range lines.length).filter fun k => ((lines[k]?).bind answer?).isSome, ?_, fun k => ?_⟩
  · exact List.pairwise_lt_range.filter _
  · rw [List.mem_filter, List.mem_range, Option.isSome_iff_exists]
    constructor
    · rintro ⟨-, a, ha⟩
      obtain ⟨line, hl, ha⟩ := Option.bind_eq_some_iff.mp ha
      exact ⟨line, a, hl, ha⟩
    · rintro ⟨line, a, hl, ha⟩
      obtain ⟨hk, -⟩ := List.getElem?_eq_some_iff.mp hl
      exact ⟨hk, a, by rw [hl]; exact ha⟩

namespace Places

variable {good : List Nat} {lines : List String} {i k : Nat}

theorem lt_of_lt (h : Places good lines) {j l : Nat} (hk : good[i]? = some k) (hl : good[j]? = some l)
    (hij : i < j) : k < l := by
  obtain ⟨hi, rfl⟩ := List.getElem?_eq_some_iff.mp hk
  obtain ⟨hj, rfl⟩ := List.getElem?_eq_some_iff.mp hl
  exact List.pairwise_iff_getElem.mp h.ascending i j hi hj hij

theorem le_of_le (h : Places good lines) {j l : Nat} (hk : good[i]? = some k) (hl : good[j]? = some l)
    (hij : i ≤ j) : k ≤ l := by
  rcases Nat.eq_or_lt_of_le hij with rfl | hlt
  · exact (Option.some.inj (hk.symm.trans hl)).le
  · exact (h.lt_of_lt hk hl hlt).le

theorem lt_length (h : Places good lines) (hk : k ∈ good) : k < lines.length := by
  obtain ⟨line, a, hl, -⟩ := (h.mem_iff k).mp hk
  exact (List.getElem?_eq_some_iff.mp hl).1

theorem linesUsed_le_length (h : Places good lines) (i : Nat) : linesUsed good lines.length i ≤ lines.length := by
  rcases i with _ | i
  · exact Nat.zero_le _
  · rw [linesUsed]
    cases hk : good[i]? with
    | none => simp
    | some k => exact h.lt_length (List.mem_of_getElem? hk)

theorem linesUsed_le (h : Places good lines) (hk : good[i]? = some k) : linesUsed good lines.length i ≤ k := by
  rcases i with _ | i
  · exact Nat.zero_le k
  · rw [linesUsed]
    cases hl : good[i]? with
    | none =>
      rw [List.getElem?_eq_none_iff] at hl
      obtain ⟨hi, -⟩ := List.getElem?_eq_some_iff.mp hk
      omega
    | some l => exact h.lt_of_lt hl hk (Nat.lt_succ_self i)

/-- Behind the lines that are used up, the next answer is the first one. -/
theorem exists_le_of_mem (h : Places good lines) (hm : k ∈ good) (hu : linesUsed good lines.length i ≤ k) :
    ∃ l, good[i]? = some l ∧ l ≤ k := by
  obtain ⟨j, hj⟩ := List.mem_iff_getElem?.mp hm
  rcases Nat.lt_or_ge j i with hji | hij
  · obtain ⟨i, rfl⟩ := Nat.exists_eq_succ_of_ne_zero (Nat.ne_zero_of_lt hji)
    rw [linesUsed] at hu
    cases hl : good[i]? with
    | none =>
      have := h.lt_length hm
      simp only [hl, Option.map_none, Option.getD_none] at hu
      omega
    | some l =>
      have hkl : k ≤ l := h.le_of_le hj hl (Nat.lt_succ_iff.mp hji)
      simp only [hl, Option.map_some, Option.getD_some] at hu
      omega
  · obtain ⟨hlen, -⟩ := List.getElem?_eq_some_iff.mp hj
    have hi : good[i]? = some good[i] := List.getElem?_eq_getElem (by omega)
    exact ⟨good[i], hi, h.le_of_le hi hj hij⟩

theorem answer?_eq_none (h : Places good lines) {j : Nat} {l : String} (hl : lines[j]? = some l)
    (hu : linesUsed good lines.length i ≤ j) (hlast : ∀ k, good[i]? = some k → j < k) : answer? l = none := by
  cases ha : answer? l with
  | none => rfl
  | some a =>
    obtain ⟨k, hk, hle⟩ := h.exists_le_of_mem ((h.mem_iff j).mpr ⟨l, a, hl, ha⟩) hu
    have := hlast k hk
    omega

end Places

/-- How many lines are refused to the question with number `i`. -/
def refusedLines (good : List Nat) (total i : Nat) : Nat := good[i]?.getD total - linesUsed good total i

namespace Places

variable {good : List Nat} {lines : List String}

theorem answer?_refused (h : Places good lines) (i : Nat) :
    ∀ l ∈ (lines.drop (linesUsed good lines.length i)).take (refusedLines good lines.length i), answer? l = none := by
  intro l hl
  obtain ⟨j, hj⟩ := List.mem_iff_getElem?.mp hl
  rw [List.getElem?_take] at hj
  split at hj
  · next hlt =>
    rw [List.getElem?_drop] at hj
    refine h.answer?_eq_none (i := i) hj (by omega) fun k hk => ?_
    rw [refusedLines, hk, Option.getD_some] at hlt
    omega
  · cases hj

theorem length_refused (h : Places good lines) (i : Nat) :
    ((lines.drop (linesUsed good lines.length i)).take (refusedLines good lines.length i)).length =
      refusedLines good lines.length i := by
  have hstop : good[i]?.getD lines.length ≤ lines.length := by
    cases hk : good[i]? with
    | none => exact le_rfl
    | some k => exact (h.lt_length (List.mem_of_getElem? hk)).le
  rw [List.length_take, List.length_drop, refusedLines]
  omega

/-- A question starts where those before it have ended. It gets the next answer, or none if there is none left. -/
theorem exists_run_ask (h : Places good lines) {s : Source} (hf : s.fault = none) (hs : s.lines = lines.map .ok)
    (i : Nat) (name : String) (acc : Bytes) :
    ∃ es, (ask name).run ⟨s.drop (linesUsed good lines.length i), .never, acc⟩ =
        ⟨.ok (good[i]?.bind fun k => lines[k]?.bind answer?), ⟨s.drop (linesUsed good lines.length (i + 1)), .never,
          acc ++ written (transcript name (refusedLines good lines.length i))⟩, es⟩ ∧
      shownText es = written (transcript name (refusedLines good lines.length i)) := by
  have hbad := h.answer?_refused i
  have hlen := h.length_refused i
  generalize hused : linesUsed good lines.length i = used at hbad hlen ⊢
  have hlines : (s.drop used).lines = (lines.drop used).map .ok := by rw [Source.lines_drop s hf, hs, List.map_drop]
  cases hk : good[i]? with
  | none =>
    have hnext : linesUsed good lines.length (i + 1) = lines.length := by simp [linesUsed, hk]
    have hcount : refusedLines good lines.length i = lines.length - used := by simp [refusedLines, hk, hused]
    have hle : used ≤ lines.length := hused ▸ h.linesUsed_le_length i
    rw [← List.take_of_length_le (l := lines.drop used) (List.length_drop.trans hcount.symm).le,
      ← List.append_nil (List.map _ _)] at hlines
    have hrun := Prompt.exists_run_ask hbad hlines (ends_declined name) acc
    rw [hlen, Source.drop_drop,
      show used + (refusedLines good lines.length i + 0) = linesUsed good lines.length (i + 1) by omega] at hrun
    exact hrun
  | some k =>
    have hnext : linesUsed good lines.length (i + 1) = k + 1 := by simp [linesUsed, hk]
    have hcount : refusedLines good lines.length i = k - used := by simp [refusedLines, hk, hused]
    have hle : used ≤ k := hused ▸ h.linesUsed_le hk
    obtain ⟨line, a, hl, ha⟩ := (h.mem_iff k).mp (List.mem_of_getElem? hk)
    obtain ⟨hlt, hget⟩ := List.getElem?_eq_some_iff.mp hl
    -- the lines that are refused, the answer, and what follows it
    have hsplit : lines.drop used =
        (lines.drop used).take (refusedLines good lines.length i) ++ line :: lines.drop (k + 1) := by
      conv_lhs => rw [← List.take_append_drop (refusedLines good lines.length i) (lines.drop used)]
      rw [List.drop_drop, hcount, Nat.add_sub_cancel' hle, ← hget, List.drop_eq_getElem_cons hlt]
    rw [hsplit, List.map_append, List.map_cons] at hlines
    have hrun := Prompt.exists_run_ask hbad hlines (ends_answered name ha) acc
    rw [hlen, Source.drop_drop,
      show used + (refusedLines good lines.length i + 1) = linesUsed good lines.length (i + 1) by omega] at hrun
    rw [Option.bind_some, hl, Option.bind_some, ha]
    exact hrun

/-- What each of the questions comes to: an answer or none, the lines that are left, and what was written. -/
theorem askEach (h : Places good lines) {s : Source} (hf : s.fault = none) (hs : s.lines = lines.map .ok)
    {names : List String} {acc : Bytes} {m i : Nat} {name : String} {o : Outcome Prompt IoFault (Option Answer)}
    (hname : names[i]? = some name)
    (ho : (Prompt.askEach names ⟨s.drop (linesUsed good lines.length m), .never, acc⟩)[i]? = some o) :
    o.result = .ok (good[m + i]?.bind fun k => lines[k]?.bind answer?) ∧
      o.state.input = s.drop (linesUsed good lines.length (m + i + 1)) ∧
      shownText o.events = written (transcript name (refusedLines good lines.length (m + i))) ∧
      o.state.output.accepted = acc ++
        ((Prompt.askEach names ⟨s.drop (linesUsed good lines.length m), .never, acc⟩).take (i + 1)).flatMap
          fun o => shownText o.events := by
  induction names generalizing m i acc with
  | nil => cases hname
  | cons first names ih =>
    obtain ⟨es, hrun, hes⟩ := h.exists_run_ask hf hs m first acc
    rw [Prompt.askEach, hrun] at ho ⊢
    rcases i with _ | i
    · obtain rfl : first = name := Option.some.inj hname
      obtain rfl : _ = o := Option.some.inj ho
      exact ⟨rfl, rfl, hes, by simp [hes]⟩
    · rw [List.getElem?_cons_succ] at hname ho
      obtain ⟨hr, hin, htext, hout⟩ := ih hname ho
      rw [show m + 1 + i = m + (i + 1) by omega] at hr hin htext
      refine ⟨hr, hin, htext, ?_⟩
      rw [hout, List.take_succ_cons, List.flatMap_cons, hes, List.append_assoc]

end Places

theorem length_askEach (names : List String) (p : Prompt) : (askEach names p).length = names.length := by
  induction names generalizing p with
  | nil => rfl
  | cons name names ih => rw [askEach, List.length_cons, List.length_cons, ih]

theorem isSome_ofInt?_iff {n : Int} : (∃ a, Answer.ofInt? n = some a) ↔ n ≠ 0 := by
  unfold Answer.ofInt?
  split <;> simp_all

/-- Questions that are put one after the other get the answers among the lines in their order. `good`
holds the places of the lines that are numbers other than zero. The question with number `i` ends with
the line at the place `good[i]`; if there is none, it uses up the input and stays without an answer. For
each line that it refuses it makes one request more and says so. -/
theorem prompt_hands_out_answers (text : String) (shown : Bytes) (names : List String) :
    let input := Source.ofString text
    let lines := Text.lines text.toList
    let outcomes := askEach names ⟨input, .never, shown⟩
    outcomes.length = names.length ∧
    ∃ good : List Nat, good.Pairwise (· < ·) ∧
      (∀ k, k ∈ good ↔ ∃ line n, lines[k]? = some line ∧ Signed64 (trim line) n ∧ n ≠ 0) ∧
      ∀ i name o, names[i]? = some name → outcomes[i]? = some o →
        (∀ k, good[i]? = some k → o.state.input = input.drop (k + 1) ∧
          ∃ line n a, lines[k]? = some line ∧ Signed64 (trim line) n ∧ Answer.ofInt? n = some a ∧
            o.result = .ok (some a)) ∧
        (good[i]? = none → o.state.input = ⟨[], none⟩ ∧ o.result = .ok none) ∧
        shownText o.events = written (transcript name (refusedLines good lines.length i)) ∧
        o.state.output.accepted = shown ++ (outcomes.take (i + 1)).flatMap fun o => shownText o.events := by
  intro input lines outcomes
  refine ⟨length_askEach _ _, ?_⟩
  have hs : input.lines = (lines.map String.ofList).map .ok := by
    rw [Source.lines_ofString, List.map_map]
    rfl
  obtain ⟨good, hgood⟩ := exists_places (lines.map String.ofList)
  refine ⟨good, hgood.ascending, fun k => ?_, fun i name o hname ho => ?_⟩
  · rw [hgood.mem_iff]
    simp only [answer?_eq_some_iff, List.getElem?_map, Option.map_eq_some_iff]
    constructor
    · rintro ⟨_, a, ⟨line, hl, rfl⟩, n, hn, ha⟩
      rw [String.toList_ofList] at hn
      exact ⟨line, n, hl, hn, isSome_ofInt?_iff.mp ⟨a, ha⟩⟩
    · rintro ⟨line, n, hl, hn, hne⟩
      obtain ⟨a, ha⟩ := isSome_ofInt?_iff.mpr hne
      exact ⟨_, a, ⟨line, hl, rfl⟩, n, by rwa [String.toList_ofList], ha⟩
  · have hstart : outcomes = askEach names ⟨input.drop (linesUsed good (lines.map String.ofList).length 0), .never,
        shown⟩ := by rw [linesUsed, drop_zero]
    rw [hstart] at ho ⊢
    obtain ⟨hr, hin, htext, hout⟩ := hgood.askEach rfl hs hname ho
    rw [Nat.zero_add] at hr hin htext
    rw [List.length_map] at htext
    refine ⟨fun k hk => ?_, fun hk => ?_, htext, hout⟩
    · obtain ⟨_, a, hl, ha⟩ := (hgood.mem_iff k).mp (List.mem_of_getElem? hk)
      rw [hk, Option.bind_some, hl, Option.bind_some, ha] at hr
      obtain ⟨n, hn, hna⟩ := answer?_eq_some_iff.mp ha
      rw [List.getElem?_map] at hl
      obtain ⟨line, hline, rfl⟩ := Option.map_eq_some_iff.mp hl
      rw [String.toList_ofList] at hn
      exact ⟨by simpa [linesUsed, hk] using hin, line, n, a, hline, hn, hna, hr⟩
    · have hall := Source.drop_length_lines input rfl
      rw [hs, List.length_map] at hall
      rw [linesUsed, hk] at hin
      exact ⟨hin.trans hall, by rw [hr, hk]; rfl⟩

example : (askEach ["A", "B", "C"] ⟨.ofString "x\n 0\n+7\n\n-12", .never, []⟩).map (·.result.toOption) =
    [some (some ⟨7, false, by decide⟩), some (some ⟨12, true, by decide⟩), some none] := by decide +kernel

end Prompt

end RecordLayout
