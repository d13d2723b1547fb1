import RecordLayout.Definition.Line
import RecordLayout.Text.Line
import Mathlib.Data.List.DropRight

/-!
# Trimming and tokens

Trimming twice is trimming once, and the first token of a text does not depend on the blanks around it.
So the type of a member line is the first token of the line as it stands (`firstToken?_of_ofString?`).
The words of a text are its tokens (`head?_words`, `getElem?_one_words`).
-/

namespace RecordLayout

namespace Text

theorem exists_trimEnd_append (cs : List Char) :
    ∃ bs, cs = trimEnd cs ++ bs ∧ ∀ b ∈ bs, isBlank b = true := by
  refine ⟨(cs.reverse.takeWhile isBlank).reverse, ?_, ?_⟩
  · rw [trimEnd, ← List.reverse_append, List.takeWhile_append_dropWhile, List.reverse_reverse]
  · intro b hb
    rw [List.mem_reverse] at hb
    exact List.mem_takeWhile_imp hb

theorem trimEnd_trimEnd (cs : List Char) : trimEnd (trimEnd cs) = trimEnd cs :=
  List.rdropWhile_idempotent isBlank cs

theorem getLast?_ne_of_trimEnd {cs : List Char} {b : Char} (h : trimEnd cs = cs) (hb : isBlank b = true) :
    cs.getLast? ≠ some b := by
  intro hlast
  obtain ⟨hne, rfl⟩ := List.mem_getLast?_eq_getLast hlast
  exact List.rdropWhile_eq_self_iff.mp h hne hb

theorem trimEnd_append (cs cs' : List Char) :
    trimEnd (cs ++ cs') = if trimEnd cs' = [] then trimEnd cs else cs ++ trimEnd cs' := by
  simp only [trimEnd, List.reverse_append, List.dropWhile_append, List.isEmpty_iff, List.reverse_eq_nil_iff]
  split
  · rfl
  · rw [List.reverse_append, List.reverse_reverse]

theorem token_trimEnd (cs : List Char) : token (trimEnd cs) = token cs := by
  obtain ⟨bs, hcs, hbs⟩ := exists_trimEnd_append cs
  have hb : bs.takeWhile isInk = [] := by
    cases bs with
    | nil => rfl
    | cons b bs => exact List.takeWhile_cons_of_neg (by simp [isInk, hbs b (by simp)])
  conv_rhs => rw [hcs]
  rw [token, token, List.takeWhile_append, hb]
  split
  · next h =>
    rw [List.append_nil]
    exact (List.takeWhile_prefix _).eq_of_length h
  · rfl

theorem trimStart_of_head {c : Char} {cs : List Char} (h : isBlank c = false) :
    trimStart (c :: cs) = c :: cs := List.dropWhile_cons_of_neg (by simp [h])

theorem token_append {t rest : List Char} (ht : ∀ c ∈ t, isBlank c = false)
    (hr : ∀ b ∈ rest.head?, isBlank b = true) : token (t ++ rest) = t ∧ afterToken (t ++ rest) = rest := by
  have hink : ∀ c ∈ t, isInk c = true := fun c hc => by rw [isInk, ht c hc]; rfl
  rw [token, afterToken, List.takeWhile_append_of_pos hink, List.dropWhile_append_of_pos hink]
  cases rest with
  | nil => exact ⟨List.append_nil t, rfl⟩
  | cons b rest =>
    have hb : ¬isInk b = true := by simp [isInk, hr b rfl]
    rw [List.takeWhile_cons_of_neg hb, List.dropWhile_cons_of_neg hb]
    exact ⟨List.append_nil t, rfl⟩

theorem isBlank_of_head?_trimStart {cs : List Char} {c : Char} (hc : c ∈ (trimStart cs).head?) :
    isBlank c = false := by
  have hhead := List.head?_dropWhile_not isBlank cs
  rw [show (cs.dropWhile isBlank).head? = some c from hc] at hhead
  simpa using hhead

theorem trimStart_trim (cs : List Char) : trimStart (trim cs) = trim cs := by
  rw [trim]
  obtain ⟨bs, hcs, hbs⟩ := exists_trimEnd_append (trimStart cs)
  cases ht : trimEnd (trimStart cs) with
  | nil => rfl
  | cons c t =>
    have hd : trimStart cs = c :: (t ++ bs) := by rw [hcs, ht, List.cons_append]
    exact trimStart_of_head (isBlank_of_head?_trimStart (by rw [hd]; rfl))

theorem trim_trim (cs : List Char) : trim (trim cs) = trim cs := by
  rw [trim, trimStart_trim, trim, trimEnd_trimEnd]

theorem trimStart_append_of_blank {bs : List Char} (h : ∀ b ∈ bs, isBlank b = true) (cs : List Char) :
    trimStart (bs ++ cs) = trimStart cs := List.dropWhile_append_of_pos h

theorem trim_append_of_blank {bs : List Char} (h : ∀ b ∈ bs, isBlank b = true) (cs : List Char) :
    trim (cs ++ bs) = trim cs := by
  have hbs : trimStart bs = [] := List.dropWhile_eq_nil_iff.mpr h
  have hend : trimEnd bs = [] := by
    rw [trimEnd, List.reverse_eq_nil_iff, List.dropWhile_eq_nil_iff]
    simpa using h
  rw [trim, trim, trimStart, List.dropWhile_append, ← trimStart, ← trimStart, hbs]
  split
  · next hcs => rw [List.isEmpty_iff.mp hcs]
  · rw [trimEnd_append, if_pos hend]

theorem token_trim (cs : List Char) : token (trim cs) = token (trimStart cs) := token_trimEnd _

theorem firstToken?_trim (cs : List Char) : firstToken? (trim cs) = firstToken? cs := by
  rw [firstToken?, trimStart_trim, token_trim, firstToken?]

/-! ### Words -/

theorem words_cons_blank {c : Char} (h : isBlank c = true) (cs : List Char) : words (c :: cs) = words cs := by
  simp [words, List.splitOnP_cons_eq_if_modifyHead, h]

theorem words_trimStart (cs : List Char) : words (trimStart cs) = words cs := by
  induction cs with
  | nil => rfl
  | cons c cs ih =>
    cases hc : isBlank c with
    | true =>
      rw [words_cons_blank hc, ← ih]
      exact congrArg words (List.dropWhile_cons_of_pos hc)
    | false => rw [trimStart_of_head hc]

theorem words_append_blank {b : Char} (h : isBlank b = true) (cs cs' : List Char) :
    words (cs ++ b :: cs') = words cs ++ words cs' := by
  rw [words, List.splitOnP_append_cons cs cs' h, List.filter_append, words, words]

theorem words_of_blank {cs : List Char} (h : ∀ c ∈ cs, isBlank c = true) : words cs = [] := by
  induction cs with
  | nil => rfl
  | cons c cs ih =>
    rw [List.forall_mem_cons] at h
    rw [words_cons_blank h.1, ih h.2]

theorem words_trim (cs : List Char) : words (trim cs) = words cs := by
  obtain ⟨bs, hcs, hbs⟩ := exists_trimEnd_append (trimStart cs)
  rw [← words_trimStart cs]
  conv_rhs => rw [hcs]
  cases bs with
  | nil => rw [List.append_nil, trim]
  | cons b bs =>
    rw [List.forall_mem_cons] at hbs
    rw [words_append_blank hbs.1, words_of_blank hbs.2, List.append_nil, trim]

theorem token_append_afterToken (cs : List Char) : token cs ++ afterToken cs = cs :=
  List.takeWhile_append_dropWhile

theorem isBlank_of_mem_token {cs : List Char} {c : Char} (hc : c ∈ token cs) : isBlank c = false := by
  simpa [isInk] using List.mem_takeWhile_imp hc

theorem isBlank_of_head?_afterToken {cs : List Char} {b : Char} (hb : b ∈ (afterToken cs).head?) :
    isBlank b = true := by
  have hhead := List.head?_dropWhile_not isInk cs
  rw [show (cs.dropWhile isInk).head? = some b from hb] at hhead
  simpa [isInk] using hhead

theorem trimStart_eq_nil_of_token {cs : List Char} (h : token (trimStart cs) = []) : trimStart cs = [] := by
  cases hc : trimStart cs with
  | nil => rfl
  | cons c rest =>
    have hink : isInk c = true := by
      rw [isInk, isBlank_of_head?_trimStart (by rw [hc]; rfl)]
      rfl
    rw [hc, token, List.takeWhile_cons_of_pos hink] at h
    cases h

theorem words_of_token {cs : List Char} (h : token cs ≠ []) : words cs = token cs :: words (afterToken cs) := by
  have hink : ∀ c ∈ token cs, isBlank c = false := fun c hc => isBlank_of_mem_token hc
  have hsplit := token_append_afterToken cs
  cases ha : afterToken cs with
  | nil =>
    rw [ha, List.append_nil] at hsplit
    conv_lhs => rw [← hsplit]
    rw [words, List.splitOnP_eq_singleton hink]
    simp [h, words]
  | cons b rest =>
    have hb : isBlank b = true := isBlank_of_head?_afterToken (by rw [ha]; rfl)
    conv_lhs => rw [← hsplit, ha]
    rw [words, List.splitOnP_append_cons_of_forall_mem hink b hb, words_cons_blank hb]
    simp [h, words]

/-- A text has no token at all, or its first token is its first word and the others follow. -/
theorem words_cases (cs : List Char) :
    (firstToken? cs = none ∧ words cs = [] ∧ secondToken? cs = none) ∨
      ∃ t, firstToken? cs = some t ∧ words cs = t :: words (afterToken (trimStart cs)) := by
  rw [← words_trimStart cs]
  by_cases h : token (trimStart cs) = []
  · have hnil := trimStart_eq_nil_of_token h
    left
    rw [firstToken?, secondToken?, hnil]
    exact ⟨rfl, rfl, rfl⟩
  · exact .inr ⟨_, if_neg (by simpa using h), words_of_token h⟩

theorem head?_words (cs : List Char) : (words cs).head? = firstToken? cs := by
  rcases words_cases cs with ⟨hf, hw, -⟩ | ⟨t, hf, hw⟩
  · rw [hf, hw, List.head?_nil]
  · rw [hf, hw, List.head?_cons]

theorem getElem?_one_words (cs : List Char) : (words cs)[1]? = secondToken? cs := by
  rcases words_cases cs with ⟨-, hw, hs⟩ | ⟨t, -, hw⟩
  · rw [hw, hs, List.getElem?_nil]
  · rw [hw, List.getElem?_cons_succ, ← List.head?_eq_getElem?, head?_words]
    rfl

end Text

theorem toList_trimmed (s : String) : (trimmed s).toList = Text.trim s.toList := String.toList_ofList

theorem trimmed_trimmed (s : String) : trimmed (trimmed s) = trimmed s := by
  rw [trimmed, toList_trimmed, Text.trim_trim, trimmed]

theorem headerName?_trimmed (text : String) : headerName? (trimmed text) = headerName? text := by
  rw [headerName?, toList_trimmed, ← Text.getElem?_one_words, Text.words_trim, Text.getElem?_one_words, headerName?]

theorem firstToken?_of_ofString? {text : String} {m : MemberLine}
    (h : MemberLine.ofString? (trimmed text) = some m) :
    (Text.firstToken? text.toList).map String.ofList = some m.typeName := by
  rw [MemberLine.ofString?, toList_trimmed, Text.token_trim] at h
  cases ht : Text.nonempty? (Text.token (Text.trimStart text.toList)) with
  | none => rw [ht] at h; cases h
  | some typeName =>
    rw [ht] at h
    simp only [Option.bind_eq_bind, Option.bind_some] at h
    obtain ⟨declarator, -, hm⟩ := Option.bind_eq_some_iff.mp h
    rw [Text.firstToken?, ht, ← Option.some.inj hm]
    rfl

end RecordLayout
