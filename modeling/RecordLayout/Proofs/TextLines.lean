import RecordLayout.Proofs.Tokens
import RecordLayout.Stream.Source
import RecordLayout.Text.Line

/-!
# Lines of a text and of its bytes

Lines are cut twice: from the characters of a text and from the bytes of a stream. No byte of a
character is a newline unless the character is one, so that the lines of a text are those of its
bytes (`lines_ofString`).
-/

namespace RecordLayout

namespace Bytes

variable {b p : Bytes} {c : Char}

/-! ### Lines of bytes -/

theorem lines_cons (x : UInt8) (b : Bytes) : lines (x :: b) = consByte x (lines b) := rfl

theorem lines_ne_nil (h : b ≠ []) : lines b ≠ [] := by
  intro hl
  rw [← flatten_lines b, hl] at h
  exact h rfl

theorem ne_nil_of_mem_lines {l : Bytes} (h : l ∈ lines b) : l ≠ [] := by
  induction b generalizing l with
  | nil => cases h
  | cons x b ih =>
    rw [lines_cons] at h
    cases hl : lines b with
    | nil =>
      rw [hl] at h
      rw [List.mem_singleton.mp h]
      exact List.cons_ne_nil _ _
    | cons m ms =>
      rw [hl, consByte] at h
      split at h
      · rcases List.mem_cons.mp h with rfl | h
        · exact List.cons_ne_nil _ _
        · exact ih (hl ▸ h)
      · rcases List.mem_cons.mp h with rfl | h
        · exact List.cons_ne_nil _ _
        · exact ih (hl ▸ List.mem_cons_of_mem _ h)

theorem lines_append_newline (h : newline ∉ b) (rest : Bytes) :
    lines (b ++ newline :: rest) = (b ++ [newline]) :: lines rest := by
  induction b with
  | nil =>
    rw [List.nil_append, lines_cons]
    cases lines rest <;> simp [consByte]
  | cons x b ih =>
    rw [List.mem_cons, not_or] at h
    rw [List.cons_append, lines_cons, ih h.2, consByte, if_neg (Ne.symm h.1), List.cons_append]

theorem lines_of_not_mem (h : newline ∉ b) (hb : b ≠ []) : lines b = [b] := by
  induction b with
  | nil => exact absurd rfl hb
  | cons x b ih =>
    rw [List.mem_cons, not_or] at h
    by_cases hn : b = []
    · rw [hn]
      rfl
    · rw [lines_cons, ih h.2 hn, consByte, if_neg (Ne.symm h.1)]

theorem lines_append (h : p.getLast? = some newline) (b : Bytes) : lines (p ++ b) = lines p ++ lines b := by
  induction p with
  | nil => cases h
  | cons x p ih =>
    rw [List.cons_append, lines_cons, lines_cons]
    by_cases hp : p = []
    · subst hp
      obtain rfl : x = newline := by simpa using h
      exact lines_append_newline List.not_mem_nil b
    · rw [List.getLast?_cons_of_ne_nil hp] at h
      rw [ih h]
      obtain ⟨l, ls, hl⟩ := List.exists_cons_of_ne_nil (lines_ne_nil hp)
      rw [hl, List.cons_append, consByte, consByte]
      split <;> rfl

theorem isEnded_of_mem_lines (h : p.getLast? = some newline) : ∀ l ∈ lines p, isEnded l = true := by
  induction p with
  | nil => cases h
  | cons x p ih =>
    by_cases hp : p = []
    · subst hp
      obtain rfl : x = newline := by simpa using h
      simp [lines, consByte, isEnded]
    · rw [List.getLast?_cons_of_ne_nil hp] at h
      have hends := ih h
      obtain ⟨l, ls, hl⟩ := List.exists_cons_of_ne_nil (lines_ne_nil hp)
      rw [lines_cons, hl, consByte]
      rw [hl, List.forall_mem_cons] at hends
      split
      · next hx =>
        rw [List.forall_mem_cons, List.forall_mem_cons]
        exact ⟨by simp [isEnded, hx], hends⟩
      · rw [List.forall_mem_cons]
        refine ⟨?_, hends.2⟩
        have hne : l ≠ [] := by
          rintro rfl
          exact absurd hends.1 (by simp [isEnded])
        rw [isEnded, List.getLast?_cons_of_ne_nil hne]
        exact hends.1

theorem lines_cases (b : Bytes) :
    b = [] ∨ (b ≠ [] ∧ newline ∉ b) ∨ ∃ line rest, b = line ++ newline :: rest ∧ newline ∉ line := by
  by_cases h : newline ∈ b
  · obtain ⟨line, rest, rfl, hline⟩ := List.eq_append_cons_of_mem h
    exact .inr (.inr ⟨line, rest, rfl, hline⟩)
  · by_cases hb : b = []
    · exact .inl hb
    · exact .inr (.inl ⟨hb, h⟩)

theorem lines_take (b : Bytes) (n : Nat) : lines (b.lines.take n).flatten = b.lines.take n := by
  induction n generalizing b with
  | zero => simp [lines]
  | succ n ih =>
    rcases lines_cases b with rfl | ⟨hb, h⟩ | ⟨line, rest, rfl, h⟩
    · simp [lines]
    · simp [lines_of_not_mem h hb]
    · rw [lines_append_newline h, List.take_succ_cons, List.flatten_cons, List.append_assoc,
        List.singleton_append, lines_append_newline h, ih]

theorem lines_drop (b : Bytes) (n : Nat) : lines (b.lines.drop n).flatten = b.lines.drop n := by
  induction n generalizing b with
  | zero => rw [List.drop_zero, flatten_lines]
  | succ n ih =>
    rcases lines_cases b with rfl | ⟨hb, h⟩ | ⟨line, rest, rfl, h⟩
    · simp [lines]
    · rw [lines_of_not_mem h hb]
      simp [lines]
    · rw [lines_append_newline h, List.drop_succ_cons, ih]

/-- Only the last line can lack its newline. -/
theorem filter_isEnded_prefix (b : Bytes) : b.lines.filter isEnded <+: b.lines := by
  induction hn : b.length using Nat.strong_induction_on generalizing b with
  | _ n ih =>
    rcases lines_cases b with rfl | ⟨hb, h⟩ | ⟨line, rest, rfl, h⟩
    · simp [lines]
    · have hlast : isEnded b = false := by
        rw [isEnded, beq_eq_false_iff_ne]
        exact fun he => h (List.mem_of_getLast? he)
      simp [lines_of_not_mem h hb, hlast]
    · have hrest := ih rest.length (by simp at hn; omega) rest rfl
      rw [lines_append_newline h, List.filter_cons_of_pos (by simp [isEnded])]
      exact (List.prefix_cons_inj _).mpr hrest

theorem stripEnding_append_newline (b : Bytes) :
    stripEnding (b ++ [newline]) = if b.getLast? = some carriageReturn then b.dropLast else b := by
  rcases List.eq_nil_or_concat b with rfl | ⟨b, x, rfl⟩
  · rfl
  · rw [List.concat_eq_append, stripEnding, List.reverse_append, List.reverse_append]
    simp

theorem stripEnding_of_not_mem (h : newline ∉ b) : stripEnding b = b := by
  rcases List.eq_nil_or_concat b with rfl | ⟨b, x, rfl⟩
  · rfl
  · rw [List.concat_eq_append] at h ⊢
    have hx : x ≠ newline := by
      rintro rfl
      exact h (by simp)
    rw [stripEnding, List.reverse_append]
    simp [hx]

theorem newline_not_mem_stripEnding {line : Bytes} (h : line ∈ lines b) : newline ∉ stripEnding line := by
  induction hn : b.length using Nat.strong_induction_on generalizing b with
  | _ n ih =>
    rcases lines_cases b with rfl | ⟨hb, hnew⟩ | ⟨first, rest, rfl, hnew⟩
    · cases h
    · rw [lines_of_not_mem hnew hb] at h
      rwa [List.mem_singleton.mp h, stripEnding_of_not_mem hnew]
    · rw [lines_append_newline hnew] at h
      rcases List.mem_cons.mp h with rfl | h
      · rw [stripEnding_append_newline]
        split
        · exact fun hmem => hnew ((List.dropLast_sublist _).subset hmem)
        · exact hnew
      · exact ih rest.length (by simp at hn; omega) h rfl

/-! ### Bytes of characters -/

/-- The bytes of characters. -/
def ofChars (cs : List Char) : Bytes := cs.flatMap String.utf8EncodeChar

theorem ofChars_append (cs cs' : List Char) : ofChars (cs ++ cs') = ofChars cs ++ ofChars cs' :=
  List.flatMap_append

theorem ofChars_ne_nil {cs : List Char} (h : cs ≠ []) : ofChars cs ≠ [] := by
  cases cs with
  | nil => exact absurd rfl h
  | cons c cs => simp [ofChars]

theorem ofString_eq_ofChars (s : String) : ofString s = ofChars s.toList := by
  rw [ofString, String.toUTF8_eq_toByteArray]
  conv_lhs => rw [← String.ofList_toList (s := s), String.toByteArray_ofList]
  rw [List.utf8Encode, List.data_toByteArray]
  rfl

theorem toString?_ofString (s : String) : toString? (ofString s) = some s := by
  have hb : (⟨(ofString s).toArray⟩ : ByteArray) = s.toByteArray := rfl
  rw [toString?, hb, String.fromUTF8?, dif_pos s.isValidUTF8]
  rfl

theorem ofString_of_toString? {text : String} (h : b.toString? = some text) : ofString text = b := by
  unfold toString? String.fromUTF8? at h
  split at h
  · cases h
    rfl
  · cases h

theorem toString?_ofChars (cs : List Char) : toString? (ofChars cs) = some (String.ofList cs) := by
  have h := toString?_ofString (String.ofList cs)
  rwa [ofString_eq_ofChars, String.toList_ofList] at h

/-- A byte below 128 stands for the character of its number, alone. -/
theorem toNat_eq_of_mem_utf8EncodeChar {x : UInt8} (h : x ∈ String.utf8EncodeChar c) (hx : x.toNat < 128) :
    c.toNat = x.toNat := by
  have hc : c.toNat = c.val.toNat := rfl
  unfold String.utf8EncodeChar at h
  dsimp only at h
  split at h
  · rw [List.mem_singleton.mp h, UInt8.toNat_ofNat']
    omega
  -- all bytes of a longer sequence have the top bit
  · exfalso
    split at h
    · simp only [List.mem_cons, List.not_mem_nil, or_false] at h
      rcases h with rfl | rfl <;> rw [UInt8.toNat_ofNat'] at hx <;> omega
    · split at h
      · simp only [List.mem_cons, List.not_mem_nil, or_false] at h
        rcases h with rfl | rfl | rfl <;> rw [UInt8.toNat_ofNat'] at hx <;> omega
      · simp only [List.mem_cons, List.not_mem_nil, or_false] at h
        rcases h with rfl | rfl | rfl | rfl <;> rw [UInt8.toNat_ofNat'] at hx <;> omega

theorem newline_mem_utf8EncodeChar_iff : newline ∈ String.utf8EncodeChar c ↔ c = '\n' := by
  constructor
  · intro h
    exact Char.toNat_inj.mp (toNat_eq_of_mem_utf8EncodeChar h (by decide))
  · rintro rfl
    decide

theorem newline_mem_ofChars_iff {cs : List Char} : newline ∈ ofChars cs ↔ '\n' ∈ cs := by
  simp only [ofChars, List.mem_flatMap, newline_mem_utf8EncodeChar_iff, exists_eq_right]

theorem stripEnding_ofChars (cs : List Char) :
    stripEnding (ofChars cs ++ [newline]) = ofChars (Text.stripReturn cs) := by
  rw [stripEnding_append_newline, Text.stripReturn]
  rcases List.eq_nil_or_concat cs with rfl | ⟨cs, c, rfl⟩
  · rfl
  · rw [List.concat_eq_append, ofChars_append]
    by_cases hc : c = '\r'
    · subst hc
      rw [show ofChars ['\r'] = [carriageReturn] from by decide]
      simp
    · have hlast : (ofChars cs ++ ofChars [c]).getLast? ≠ some carriageReturn := by
        intro h
        have hmem : carriageReturn ∈ String.utf8EncodeChar c := by
          rw [List.getLast?_append_of_ne_nil _ (ofChars_ne_nil (List.cons_ne_nil c []))] at h
          simpa [ofChars] using List.mem_of_getLast? h
        exact hc (Char.toNat_inj.mp (toNat_eq_of_mem_utf8EncodeChar hmem (by decide)))
      rw [if_neg hlast, if_neg (by simpa using hc), ofChars_append]

end Bytes

namespace Text

variable {cs : List Char}

theorem lines_append_newline (h : '\n' ∉ cs) (rest : List Char) :
    lines (cs ++ '\n' :: rest) = stripReturn cs :: lines rest := by
  rw [lines, List.splitOn_append_cons_self_of_not_mem h, lines]
  obtain ⟨first, others, hs⟩ := List.exists_cons_of_ne_nil (List.splitOn_ne_nil '\n' rest)
  rw [hs, endLines]
  exact List.cons_ne_nil _ _

theorem lines_of_not_mem (h : '\n' ∉ cs) (hcs : cs ≠ []) : lines cs = [cs] := by
  rw [lines, List.splitOn_eq_singleton h, endLines, if_neg (by simpa using hcs)]

theorem lines_intercalate {ls : List (List Char)} {last : List Char} (hn : ∀ l ∈ ls ++ [last], '\n' ∉ l)
    (hr : ∀ l ∈ ls, l.getLast? ≠ some '\r') (hlast : last ≠ []) :
    lines (['\n'].intercalate (ls ++ [last])) = ls ++ [last] := by
  rw [lines, List.splitOn_intercalate '\n' hn (by simp)]
  clear hn
  induction ls with
  | nil => rw [List.nil_append, endLines, if_neg (by simpa using hlast)]
  | cons l ls ih =>
    rw [List.forall_mem_cons] at hr
    rw [List.cons_append, endLines, ih hr.2, stripReturn, if_neg hr.1]
    simp

end Text

namespace Source

variable {cs : List Char}

theorem lineText_ended (cs : List Char) :
    lineText (Bytes.ofChars cs ++ [Bytes.newline]) = .ok (String.ofList (Text.stripReturn cs)) := by
  rw [lineText, Bytes.stripEnding_ofChars, Bytes.toString?_ofChars]

theorem lineText_unended (h : '\n' ∉ cs) : lineText (Bytes.ofChars cs) = .ok (String.ofList cs) := by
  rw [lineText, Bytes.stripEnding_of_not_mem (Bytes.newline_mem_ofChars_iff.not.mpr h),
    Bytes.toString?_ofChars]

theorem newline_not_mem_of_mem_lines {s : Source} {text : String} (h : .ok text ∈ s.lines) :
    '\n' ∉ text.toList := by
  have hline : ∃ line ∈ s.bytes.lines, lineText line = .ok text := by
    unfold lines at h
    split at h
    · exact List.mem_map.mp h
    · rcases List.mem_append.mp h with h | h
      · obtain ⟨line, hl, ht⟩ := List.mem_map.mp h
        exact ⟨line, (List.mem_filter.mp hl).1, ht⟩
      · cases List.mem_singleton.mp h
  obtain ⟨line, hl, ht⟩ := hline
  unfold lineText at ht
  split at ht
  · next t hs =>
    cases ht
    rw [← Bytes.newline_mem_ofChars_iff, ← Bytes.ofString_eq_ofChars, Bytes.ofString_of_toString? hs]
    exact Bytes.newline_not_mem_stripEnding hl
  · cases ht

theorem map_lineText_ofChars (cs : List Char) :
    (Bytes.ofChars cs).lines.map lineText = (Text.lines cs).map fun l => .ok (String.ofList l) := by
  -- line by line: the induction is on the length of the text
  induction hn : cs.length using Nat.strong_induction_on generalizing cs with
  | _ n ih =>
    by_cases h : '\n' ∈ cs
    · obtain ⟨line, rest, rfl, hline⟩ := List.eq_append_cons_of_mem h
      have hnew : Bytes.ofChars (line ++ '\n' :: rest) =
          Bytes.ofChars line ++ Bytes.newline :: Bytes.ofChars rest := Bytes.ofChars_append _ _
      rw [hnew, Bytes.lines_append_newline (Bytes.newline_mem_ofChars_iff.not.mpr hline),
        Text.lines_append_newline hline, List.map_cons, List.map_cons, lineText_ended,
        ih rest.length (by simp at hn; omega) rest rfl]
    · by_cases hcs : cs = []
      · subst hcs
        rfl
      · rw [Bytes.lines_of_not_mem (Bytes.newline_mem_ofChars_iff.not.mpr h) (Bytes.ofChars_ne_nil hcs),
          Text.lines_of_not_mem h hcs, List.map_singleton, List.map_singleton, lineText_unended h]

theorem drop_drop (s : Source) (m n : Nat) : (s.drop m).drop n = s.drop (m + n) := by
  show Source.mk ((Bytes.lines (s.bytes.lines.drop m).flatten).drop n).flatten _ = Source.mk _ _
  rw [Bytes.lines_drop, List.drop_drop]
  rfl

theorem lines_drop (s : Source) (h : s.fault = none) (n : Nat) : (s.drop n).lines = s.lines.drop n := by
  have hd : (s.drop n).fault = none := h
  simp only [lines, h, hd]
  rw [drop, Bytes.lines_drop, List.map_drop]

theorem drop_length_lines (s : Source) (h : s.fault = none) : s.drop s.lines.length = ⟨[], none⟩ := by
  have hlen : s.lines.length = s.bytes.lines.length := by simp [lines, h]
  rw [hlen, drop, List.drop_length, h]
  rfl

theorem lines_ofString (s : String) :
    (ofString s).lines = (Text.lines s.toList).map fun l => .ok (String.ofList l) := by
  rw [← map_lineText_ofChars, ← Bytes.ofString_eq_ofChars]
  rfl

end Source

end RecordLayout
