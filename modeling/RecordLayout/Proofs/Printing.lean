import RecordLayout.Proofs.Declarators
import RecordLayout.Proofs.Layout
import RecordLayout.Proofs.LineGrammar
import RecordLayout.Proofs.TextLines

/-!
# Definitions that are printed and read

A declared member is printed as a line of its type, its declarator and its description, and a definition
as a header, the lines of its members and the terminator. If the types have sizes, such a text is read as
what was printed: `ofString?_line` for the parts of a line, `exists_accepts_printed` for a list of members.
-/

namespace RecordLayout

/-- A text that is a single token: it is not empty and holds no blank. -/
def IsToken (s : String) : Prop := s ≠ "" ∧ ∀ c ∈ s.toList, isBlank c = false

instance (s : String) : Decidable (IsToken s) :=
  decidable_of_iff (s ≠ "" ∧ s.toList.all isInk = true) (by simp [IsToken, isInk])

/-- A member as it is declared. A plain member has no identifier that would be read as an array. -/
structure Declaration where
  typeName : String
  identifier : String
  /-- The length of an array. -/
  count : Option Nat
  description : String
  isToken_typeName : IsToken typeName
  isToken_identifier : IsToken identifier
  count_lt : ∀ n ∈ count, n < 2 ^ 63
  not_endsInLength : count = none → ¬Suffix.EndsInLength identifier.toList
  newline_not_mem : '\n' ∉ description.toList
  trimmed_description : trimmed description = description

namespace Declaration

def declarator (m : Declaration) : String :=
  match m.count with
  | none => m.identifier ++ ";"
  | some n => m.identifier ++ "[" ++ toString n ++ "];"

/-- The line of a member. -/
def line (m : Declaration) : String := m.typeName ++ " " ++ m.declarator ++ " " ++ m.description

/-- The text of a definition. -/
def print (name : String) (ms : List Declaration) : String :=
  "\n".intercalate (("struct " ++ name) :: ms.map line ++ [terminator])

end Declaration

/-! ### Tokens of a line -/

namespace IsToken

variable {s t d : String} {rest : List Char}

theorem append (hs : IsToken s) (ht : IsToken t) : IsToken (s ++ t) := by
  refine ⟨fun h => hs.1 (String.append_eq_empty_iff.mp h).1, fun c hc => ?_⟩
  rw [String.toList_append, List.mem_append] at hc
  exact hc.elim (hs.2 c) (ht.2 c)

theorem trimStart_append (h : IsToken s) (rest : List Char) :
    Text.trimStart (s.toList ++ rest) = s.toList ++ rest := by
  cases hs : s.toList with
  | nil => exact absurd (String.toList_eq_nil_iff.mp hs) h.1
  | cons c cs => exact Text.trimStart_of_head (h.2 c (by rw [hs]; exact List.mem_cons_self))

theorem trimEnd_append (h : IsToken s) (cs : List Char) :
    Text.trimEnd (cs ++ s.toList) = cs ++ s.toList := by
  have hs : Text.trimEnd s.toList = s.toList :=
    List.rdropWhile_eq_self_iff.mpr fun hne => by simp [h.2 _ (List.getLast_mem hne)]
  rw [Text.trimEnd_append, hs, if_neg (by simpa using h.1)]

/-- Two tokens are read as the type and the declarator of a member, and what follows as its description. -/
theorem ofString?_append (ht : IsToken t) (hd : IsToken d) (hr : ∀ b ∈ rest.head?, isBlank b = true) :
    MemberLine.ofString? (String.ofList (t.toList ++ ' ' :: (d.toList ++ rest))) =
      some ⟨t, d, String.ofList (Text.trim rest)⟩ := by
  have hblank : isBlank ' ' = true := by decide
  have hs : Text.Splits (String.ofList (t.toList ++ ' ' :: (d.toList ++ rest))).toList t.toList [' '] d.toList rest :=
    ⟨by simp, by simpa using ht.1, ht.2, by simp, by simpa using hblank, by simpa using hd.1, hd.2, hr⟩
  rw [MemberLine.ofString?_of_splits hs, String.ofList_toList, String.ofList_toList]

theorem words (h : IsToken s) : Text.words s.toList = [s.toList] := by
  rw [Text.words, List.splitOnP_eq_singleton h.2]
  simp [h.1]

theorem headerName?_append (hs : IsToken s) (ht : IsToken t) : headerName? (s ++ " " ++ t) = some t := by
  have hcs : (s ++ " " ++ t).toList = s.toList ++ ' ' :: t.toList := by simp
  rw [headerName?, hcs, ← Text.getElem?_one_words, Text.words_append_blank (by decide), hs.words, ht.words]
  simp

theorem newline_not_mem (h : IsToken s) : '\n' ∉ s.toList := by
  intro hmem
  have := h.2 _ hmem
  revert this
  decide

end IsToken

theorem isBlank_of_isDigit {c : Char} (h : c.isDigit = true) : isBlank c = false := by
  have hc : 48 ≤ c.toNat ∧ c.toNat ≤ 57 := by
    simpa [Char.isDigit, UInt32.le_iff_toNat_le] using h
  simp only [isBlank, Bool.or_eq_false_iff, Bool.and_eq_false_iff, beq_eq_false_iff_ne, decide_eq_false_iff_not]
  omega

theorem isToken_toString (n : Nat) : IsToken (toString n) := by
  rw [Nat.toString_eq_repr]
  refine ⟨fun h => ?_, fun c hc => ?_⟩
  · have hnil := String.toList_eq_nil_iff.mpr h
    rw [Nat.toList_repr] at hnil
    exact Nat.toDigits_ne_nil hnil
  · rw [Nat.toList_repr] at hc
    exact isBlank_of_isDigit (Nat.isDigit_of_mem_toDigits (by decide) (by decide) hc)

namespace Declaration

variable (m : Declaration) {name : String} {ms : List Declaration}

theorem isToken_declarator : IsToken m.declarator := by
  unfold declarator
  split
  · exact m.isToken_identifier.append (by decide)
  · next n _ => exact ((m.isToken_identifier.append (by decide)).append (isToken_toString n)).append (by decide)

theorem parsed_declarator (number : Nat) :
    Declarator.parsed m.declarator number = .ok ⟨m.identifier, m.count⟩ := by
  unfold declarator
  split
  · next hc =>
    rw [Declarator.parsed_scalar m.isToken_identifier.1 (m.not_endsInLength hc), hc]
  · next n hc =>
    rw [Declarator.parsed_array m.isToken_identifier.1 (m.count_lt n hc), hc]

theorem toList_line : m.line.toList =
    m.typeName.toList ++ ' ' :: (m.declarator.toList ++ ' ' :: m.description.toList) := by
  simp [line]

theorem trimEnd_description : Text.trimEnd m.description.toList = m.description.toList := by
  rw [← m.trimmed_description, toList_trimmed, Text.trim, Text.trimEnd_trimEnd]

theorem trim_line : Text.trim m.line.toList =
    m.typeName.toList ++ ' ' :: (m.declarator.toList ++ Text.trimEnd (' ' :: m.description.toList)) := by
  have hlead : Text.trimEnd (m.typeName.toList ++ ' ' :: m.declarator.toList) =
      m.typeName.toList ++ ' ' :: m.declarator.toList := by
    rw [List.append_cons, m.isToken_declarator.trimEnd_append]
  rw [Text.trim, toList_line, m.isToken_typeName.trimStart_append, ← List.cons_append, ← List.append_assoc,
    Text.trimEnd_append, hlead]
  split
  · next h => rw [h, List.append_nil]
  · rw [List.append_assoc, List.cons_append]

theorem trimEnd_blank_description :
    m.description.toList = [] ∧ Text.trimEnd (' ' :: m.description.toList) = [] ∨
      Text.trimEnd (' ' :: m.description.toList) = ' ' :: m.description.toList := by
  rw [← List.singleton_append, Text.trimEnd_append, m.trimEnd_description]
  split
  · next h => exact .inl ⟨h, by decide⟩
  · exact .inr rfl

theorem ofString?_line :
    MemberLine.ofString? (trimmed m.line) = some ⟨m.typeName, m.declarator, m.description⟩ := by
  have htrim : Text.trim (' ' :: m.description.toList) = m.description.toList := by
    rw [Text.trim, Text.trimStart, List.dropWhile_cons_of_pos (by decide)]
    exact (toList_trimmed _).symm.trans (congrArg String.toList m.trimmed_description)
  rw [trimmed, trim_line]
  rcases m.trimEnd_blank_description with ⟨hnil, h⟩ | h
  · rw [h, m.isToken_typeName.ofString?_append m.isToken_declarator (by simp),
      String.toList_eq_nil_iff.mp hnil]
    rfl
  · rw [h, m.isToken_typeName.ofString?_append m.isToken_declarator (by rintro b ⟨⟩; decide), htrim,
      String.ofList_toList]

theorem member_of_text {l : Conversion.NumberedLine} (h : l.text = .ok m.line) : l.Member (trimmed m.line) := by
  have hparts := m.ofString?_line
  refine ⟨m.line, h, rfl, fun ht => ?_, fun hb => ?_⟩
  · rw [ht] at hparts
    cases hparts
  · rw [hb] at hparts
    cases hparts

theorem newline_not_mem_line : '\n' ∉ m.line.toList := by
  rw [toList_line]
  simp [m.isToken_typeName.newline_not_mem, m.isToken_declarator.newline_not_mem, m.newline_not_mem]

theorem getLast?_line_ne : m.line.toList.getLast? ≠ some '\r' := by
  rw [toList_line, ← List.cons_append, ← List.append_assoc,
    List.getLast?_append_of_ne_nil _ (List.cons_ne_nil _ _)]
  rcases m.trimEnd_blank_description with ⟨hnil, -⟩ | h
  · rw [hnil]
    decide
  · exact Text.getLast?_ne_of_trimEnd h (by decide)

theorem lines_print (hname : IsToken name) :
    (Source.ofString (print name ms)).lines =
      (("struct " ++ name) :: ms.map line ++ [terminator]).map Except.ok := by
  have hcut : Text.lines (print name ms).toList =
      (("struct " ++ name) :: ms.map line ++ [terminator]).map String.toList := by
    rw [print, String.toList_intercalate, List.map_append]
    refine Text.lines_intercalate ?_ ?_ (by decide)
    · rw [List.forall_mem_append, List.forall_mem_map, List.forall_mem_cons, List.forall_mem_map,
        List.forall_mem_singleton]
      refine ⟨⟨?_, fun m _ => m.newline_not_mem_line⟩, by decide⟩
      rw [String.toList_append, List.mem_append, not_or]
      exact ⟨by decide, hname.newline_not_mem⟩
    · rw [List.forall_mem_map, List.forall_mem_cons, List.forall_mem_map]
      refine ⟨?_, fun m _ => m.getLast?_line_ne⟩
      rw [String.toList_append]
      exact Text.getLast?_ne_of_trimEnd (hname.trimEnd_append _) (by decide)
  rw [Source.lines_ofString, hcut, List.map_map]
  refine List.map_congr_left fun l _ => ?_
  rw [Function.comp_apply, String.ofList_toList]

end Declaration

namespace Conversion

variable {ρ : Type} (c : Conversion ρ)

/-- The size of a type that need not be asked for. -/
def knownSize (typeName : String) : Nat :=
  (primitiveSize? typeName).getD ((c.catalog.size? typeName).getD 0)

/-- The bytes of a declared member. -/
def declaredSize (m : Declaration) : Nat := c.knownSize m.typeName * m.count.getD 1

/-- The field of a declared member at an offset. -/
def declaredField (offset : Nat) (m : Declaration) : Field where
  offset := offset
  elementSize := c.knownSize m.typeName
  count := m.count
  typeName := m.typeName
  targetType := targetType m.typeName
  identifier := m.identifier
  description := m.description
  isRecord := (primitiveSize? m.typeName).isNone
  isClassName := false

/-- The fields of declared members, one behind the other. -/
def declaredFields : Nat → List Declaration → List Field
  | _, [] => []
  | offset, m :: ms => c.declaredField offset m :: declaredFields (offset + c.declaredSize m) ms

theorem totalSize_declaredFields (offset : Nat) (ms : List Declaration) :
    Field.totalSize (c.declaredFields offset ms) = (ms.map c.declaredSize).sum := by
  induction ms generalizing offset with
  | nil => rfl
  | cons m ms ih => rw [declaredFields, Field.totalSize_cons, ih, List.map_cons, List.sum_cons]; rfl

variable {c} [SizeSource ρ]

theorem run_sizing_of_known {typeName : String} (line : Nat) (h : ¬c.Unknown typeName) :
    (sizing typeName line).run c =
      ⟨.ok ⟨c.knownSize typeName, (primitiveSize? typeName).isNone, false⟩, c, []⟩ := by
  cases hp : primitiveSize? typeName with
  | some n =>
    rw [run_sizing_builtIn hp, knownSize, hp]
    rfl
  | none =>
    cases hk : c.catalog.size? typeName with
    | some n =>
      rw [run_sizing_known hp hk, knownSize, hp, hk]
      rfl
    | none => exact absurd ⟨hp, hk⟩ h

theorem map_text_numberedLines (source : Source) :
    (numberedLines source).map NumberedLine.text = source.lines := by
  rw [numberedLines, List.map_map]
  exact List.zipIdx_map_fst 0 source.lines

theorem run_readField_line {m : Declaration} (line offset : Nat) (hk : ¬c.Unknown m.typeName)
    (hs : c.declaredSize m ≤ maxSize) :
    ∃ es, (readField (trimmed m.line) line offset).run c = ⟨.ok (c.declaredField offset m), c, es⟩ ∧
      askedTypes es = [] := by
  have hm : MemberLine.ofString? (trimmed (trimmed m.line)) = _ :=
    (congrArg _ (trimmed_trimmed m.line)).trans m.ofString?_line
  obtain ⟨es, hr, hq⟩ := run_readField c line offset hm
  rw [run_sizing_of_known line hk] at hr hq
  refine ⟨es, ?_, hq⟩
  have hfits : ¬maxSize < c.knownSize m.typeName * m.count.getD 0 := by
    rw [Nat.not_lt]
    refine Nat.le_trans (Nat.mul_le_mul_left _ ?_) hs
    cases m.count <;> simp
  rw [hr, Except.bind, place, m.parsed_declarator]
  dsimp only
  rw [if_neg hfits]
  rfl

namespace Reached

variable {s : Reached ρ}

/-- The lines of members are accepted, as far as the members fit. -/
theorem exists_accepts_printed {ms : List Declaration} {lines : List NumberedLine} (hc : s.conversion = c)
    (hl : lines.map NumberedLine.text = ms.map fun m => .ok m.line) (hk : ∀ m ∈ ms, ¬c.Unknown m.typeName)
    (hs : s.offset + (ms.map c.declaredSize).sum ≤ maxSize) :
    ∃ s', s.Accepts lines s' ∧ s'.fields = s.fields ++ c.declaredFields s.offset ms ∧ s'.conversion = c ∧
      askedTypes s'.events = askedTypes s.events := by
  induction ms generalizing s lines with
  | nil =>
    obtain rfl := List.map_eq_nil_iff.mp hl
    exact ⟨s, .nil s, (List.append_nil _).symm, hc, rfl⟩
  | cons m ms ih =>
    obtain ⟨line, rest, rfl, htext, hrest⟩ := List.map_eq_cons_iff.mp hl
    rw [List.forall_mem_cons] at hk
    rw [List.map_cons, List.sum_cons] at hs
    obtain ⟨es, hr, hq⟩ := run_readField_line line.number s.offset hk.1 (by omega)
    have hfit : (c.declaredField s.offset m).stop ≤ maxSize := by
      show s.offset + c.declaredSize m ≤ maxSize
      omega
    let s₁ : Reached ρ := { s.next with
      conversion := c, fields := s.fields ++ [c.declaredField s.offset m], events := s.events ++ es }
    have ht : s.Takes line s₁ := .field (m.member_of_text htext) (by rw [hc, hr]) hfit
    have hoffset : s₁.offset = s.offset + c.declaredSize m := by
      simp only [offset, s₁, Field.totalSize_append, Field.totalSize_cons]
      rfl
    obtain ⟨s', ha, hfields, hc', hq'⟩ := ih rfl hrest hk.2 (by rw [hoffset]; omega)
    refine ⟨s', .cons ht ha, ?_, hc', ?_⟩
    · rw [hfields, hoffset, declaredFields, List.append_assoc, List.singleton_append]
    · rw [hq', askedTypes_append, hq, List.append_nil]

end Reached

theorem exists_numberedLines_print {name : String} (hname : IsToken name) (ms : List Declaration) :
    ∃ header members last,
      numberedLines (.ofString (Declaration.print name ms)) = header :: (members ++ [last]) ∧
      header.text = .ok ("struct " ++ name) ∧
      members.map NumberedLine.text = ms.map (fun m => .ok m.line) ∧ last.text = .ok terminator := by
  have htexts := map_text_numberedLines (.ofString (Declaration.print name ms))
  rw [Declaration.lines_print hname, List.map_append] at htexts
  obtain ⟨front, back, hlines, hfront, hback⟩ := List.map_eq_append_iff.mp htexts
  obtain ⟨header, members, rfl, hheader, hmembers⟩ := List.map_eq_cons_iff.mp hfront
  obtain ⟨last, rfl, hlast⟩ := List.map_eq_singleton_iff.mp hback
  exact ⟨header, members, last, hlines, hheader, hmembers.trans (List.map_map ..), hlast⟩

/-- What was printed is read. If every type has a size that is known, and the sizes add up to one of 64
bits, the text of a definition gives a record of its name and of its members, which lie one behind the
other, and no type is asked for. -/
theorem reading_undoes_printing (c : Conversion ρ) {name : String} {ms : List Declaration}
    (hname : IsToken name) (hk : ∀ m ∈ ms, ¬c.Unknown m.typeName)
    (hs : (ms.map c.declaredSize).sum ≤ 2 ^ 64 - 1) :
    let o := (readFrom (.ofString (Declaration.print name ms))).run c
    o.result = .ok ⟨name, c.declaredFields 0 ms⟩ ∧ askedTypes o.events = [] ∧
      o.state = { c with catalog := c.catalog.recorded name (ms.map c.declaredSize).sum } := by
  obtain ⟨header, members, last, hlines, hheader, hmembers, hlast⟩ := exists_numberedLines_print hname ms
  have hfits : (Reached.start c).offset + (ms.map c.declaredSize).sum ≤ maxSize := by
    show 0 + _ ≤ maxSize
    rwa [Nat.zero_add, maxSize_eq]
  obtain ⟨s, ha, hfields, hc, hq⟩ := Reached.exists_accepts_printed rfl hmembers hk hfits
  have hgo : (Reached.start c).go (members ++ [last]) = ⟨.ok s.fields, s.next.toReading, s.events⟩ := by
    rw [Reached.go_of_accepts ha, Reached.go_of_stops (.ended hlast (.inl (by decide)))]
  have hn : headerName? ("struct " ++ name) = some name := by
    rw [show "struct " = "struct" ++ " " by decide]
    exact IsToken.headerName?_append (by decide) hname
  obtain ⟨es, hr, hes⟩ := run_readLines_header c (members ++ [last]) hheader hn
  rw [hgo] at hr hes
  have hdef : s.fields = c.declaredFields 0 ms := hfields
  rw [run_readFrom, hlines, hr]
  refine ⟨?_, hes.trans hq, ?_⟩
  · show Except.ok (RecordDef.mk name s.fields) = _
    rw [hdef]
  · show ({ s.conversion with catalog := s.conversion.catalog.recorded name (Field.totalSize s.fields) } :
      Conversion ρ) = _
    rw [hc, hdef, totalSize_declaredFields]
    rfl

/-- A type that looks like the terminator, an identifier that ends in a semicolon, and an array whose
identifier ends in a length. -/
theorem reading_undoes_printing_brackets :
    let c : Conversion (String → Option Answer) := ⟨"", .ofEntries [("\x7d;", 3)], fun _ => none⟩
    let a : Declaration := ⟨"\x7d;", "a;", none, "\x7d; [4]", by decide, by decide, by simp,
      fun _ h => absurd h.getLast? (by decide), by decide, by decide⟩
    let x : Declaration := ⟨"UInt8", "x[3]", some (2 ^ 63 - 1), "", by decide, by decide, by simp, by simp,
      by decide, by decide⟩
    Declaration.print "[1];" [a, x] =
      "struct [1];\n\x7d; a;; \x7d; [4]\nUInt8 x[3][9223372036854775807]; \n\x7d;" ∧
    ((readFrom (.ofString (Declaration.print "[1];" [a, x]))).run c).result =
      .ok ⟨"[1];", [⟨0, 3, none, "\x7d;", "\x7d;", "a;", "\x7d; [4]", true, false⟩,
        ⟨3, 1, some (2 ^ 63 - 1), "UInt8", "u8", "x[3]", "", false, false⟩]⟩ := by
  intro c a x
  have hk : ∀ m ∈ [a, x], ¬c.Unknown m.typeName := by
    unfold Unknown
    decide
  exact ⟨by decide +kernel, (reading_undoes_printing c (by decide) hk (by decide)).1⟩

end Conversion

end RecordLayout
