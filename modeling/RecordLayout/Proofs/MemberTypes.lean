import RecordLayout.Proofs.MemberList
import RecordLayout.Proofs.Tokens

/-!
# The types of the members

Which record a definition declares, and which types its members have, can be seen from its lines alone.
Reading the definition asks for no other types (`mem_declaredTypes_of_asked`).
-/

namespace RecordLayout

namespace Conversion

/-- The text of a line without the blanks around it. -/
def NumberedLine.content? (line : NumberedLine) : Option String := line.text.toOption.map trimmed

/-- The type of a line that can be split as a member. -/
def NumberedLine.memberType? (line : NumberedLine) : Option String :=
  line.content?.bind fun text => (MemberLine.ofString? text).map MemberLine.typeName

/-- The types of the members in front of the terminator. -/
def memberTypes (lines : List NumberedLine) : List String :=
  (lines.takeWhile fun line => line.content? ≠ some terminator).filterMap NumberedLine.memberType?

/-- The types of the members of a definition. It has none if a blank line follows the header. -/
def declaredTypes (source : Source) : List String :=
  let lines := (numberedLines source).tail
  if lines.head?.bind NumberedLine.content? = some "" then [] else memberTypes lines

/-- The name of the record that a definition declares. -/
def declaredName (source : Source) : Option String :=
  (numberedLines source).head?.bind fun header => header.text.toOption.bind headerName?

variable {line : NumberedLine} {lines rest : List NumberedLine} {raw text typeName : String} {m : MemberLine}

theorem NumberedLine.content?_of_ok (hl : line.text = .ok raw) : line.content? = some (trimmed raw) := by
  rw [content?, hl]
  rfl

theorem NumberedLine.Member.content? (hl : line.Member text) : line.content? = some text := by
  obtain ⟨raw, hl, rfl, -, -⟩ := hl
  exact content?_of_ok hl

theorem NumberedLine.Member.content?_ne (hl : line.Member text) : line.content? ≠ some terminator := by
  rw [hl.content?]
  obtain ⟨raw, -, -, hne, -⟩ := hl
  exact fun h => hne (Option.some.inj h)

theorem NumberedLine.Member.memberType? (hl : line.Member text)
    (hm : MemberLine.ofString? (trimmed text) = some m) : line.memberType? = some m.typeName := by
  have htrim : trimmed text = text := by
    obtain ⟨raw, -, rfl, -, -⟩ := hl
    exact trimmed_trimmed raw
  rw [NumberedLine.memberType?, hl.content?, Option.bind_some, ← htrim, hm]
  rfl

theorem memberTypes_cons (h : line.content? ≠ some terminator) :
    memberTypes (line :: rest) = line.memberType?.toList ++ memberTypes rest := by
  rw [memberTypes, List.takeWhile_cons_of_pos (by simpa using h), List.filterMap_cons]
  cases line.memberType? <;> rfl

theorem mem_memberTypes (hl : line.Member text) (hm : MemberLine.ofString? (trimmed text) = some m) :
    m.typeName ∈ memberTypes (line :: rest) := by
  rw [memberTypes_cons hl.content?_ne, hl.memberType? hm]
  exact List.mem_cons_self

theorem declaredTypes_of_not_blank {source : Source} (h : numberedLines source = line :: rest)
    (hb : rest.head?.bind NumberedLine.content? ≠ some "") : declaredTypes source = memberTypes rest := by
  rw [declaredTypes, h]
  exact if_neg hb

variable {ρ : Type} [SizeSource ρ] {s s' : Reached ρ}

theorem Reached.Takes.content?_ne (h : s.Takes line s') : line.content? ≠ some terminator := by
  cases h with
  | blank hl hb hf =>
    rw [NumberedLine.content?_of_ok hl, hb]
    decide
  | field hl hr hf => exact hl.content?_ne

theorem Reached.Takes.mem_memberTypes (h : s.Takes line s') (ht : typeName ∈ memberTypes rest) :
    typeName ∈ memberTypes (line :: rest) := by
  rw [memberTypes_cons h.content?_ne]
  exact List.mem_append_right _ ht

theorem Reached.mem_memberTypes_of_asked (h : typeName ∈ askedTypes (s.go lines).events) :
    typeName ∈ askedTypes s.events ∨ typeName ∈ memberTypes lines := by
  induction lines generalizing s with
  | nil =>
    rw [go_nil] at h
    exact .inl h
  | cons line rest ih =>
    -- a question that a member line leads to
    have hline : ∀ {text o}, line.Member text →
        (readField text line.number s.offset).run s.conversion = o →
        typeName ∈ askedTypes o.events → typeName ∈ memberTypes (line :: rest) := by
      intro text o hl ho hmem
      rw [← ho] at hmem
      rcases asked_readField s.conversion text line.number s.offset with hq | ⟨m, hm, hq⟩
      · rw [hq] at hmem; cases hmem
      · rw [hq, List.mem_singleton] at hmem
        rw [hmem]
        exact Conversion.mem_memberTypes hl hm
    rcases takes_or_stops s line with ⟨s', ht⟩ | ⟨o, hst⟩
    · rw [go_of_takes ht] at h
      rcases ih h with hs | hs
      · cases ht with
        | blank => exact .inl hs
        | @field text f c es hl hr hf =>
          rw [askedTypes_append, List.mem_append] at hs
          exact hs.imp_right (hline hl hr)
      · exact .inr (ht.mem_memberTypes hs)
    · rw [go_of_stops hst] at h
      cases hst with
      | unreadable => exact .inl h
      | ended => exact .inl h
      | @refused text e c es hl hr | @tooLarge text f c es hl hr hf =>
        rw [askedTypes_append, List.mem_append] at h
        exact h.imp_right (hline hl hr)

/-- A blank line behind the header ends a definition. -/
theorem Reached.go_start_of_blank {c : Conversion ρ} (h : lines.head?.bind NumberedLine.content? = some "") :
    (start c).go lines = ⟨.ok [], ⟨c, 2⟩, []⟩ := by
  obtain ⟨line, hhead, hc⟩ := Option.bind_eq_some_iff.mp h
  obtain ⟨rest, rfl⟩ := List.head?_eq_some_iff.mp hhead
  obtain ⟨raw, hraw, hb⟩ := Option.map_eq_some_iff.mp hc
  have hl : line.text = .ok raw := by
    cases ht : line.text with
    | error fault => rw [ht] at hraw; cases hraw
    | ok r => rw [ht] at hraw; cases hraw; rfl
  exact go_of_stops (.ended hl (.inr ⟨hb, rfl⟩))

theorem mem_declaredTypes_of_asked {c : Conversion ρ} {source : Source}
    (h : typeName ∈ askedTypes ((readFrom source).run c).events) : typeName ∈ declaredTypes source := by
  rcases readFrom_cases c source with ⟨e, he⟩ | ⟨header, rest, raw, name, es, hl, -, -, hr, hq⟩
  · rw [he] at h; cases h
  · rw [hr] at h
    rw [hq] at h
    by_cases hb : rest.head?.bind NumberedLine.content? = some ""
    · rw [Reached.go_start_of_blank hb] at h; cases h
    · rw [declaredTypes_of_not_blank hl hb]
      rcases Reached.mem_memberTypes_of_asked h with hs | hs
      · cases hs
      · exact hs

theorem declaredName_of_ok {c : Conversion ρ} {source : Source} {d : RecordDef}
    (h : ((readFrom source).run c).result = .ok d) : declaredName source = some d.name := by
  obtain ⟨header, rest, raw, hl, ht, hn, -⟩ := exists_of_readFrom_ok h
  rw [declaredName, hl, List.head?_cons, Option.bind_some, ht]
  exact hn

end Conversion

end RecordLayout
