import RecordLayout.Proofs.Scan
import RecordLayout.SizeSource.Prompt

/-!
# Blanks around lines and blank lines

Two definitions that differ only in the blanks around their lines, and in blank lines behind the first
member, are read alike. What is read of a line is its text without blanks around it, and blanks cannot
turn bytes into a text that were none (`trimmed?_append_blank`). So both readings take the same steps,
except that one of them may take a blank line alone, which changes nothing (`Respaced.go`).
-/

namespace RecordLayout

namespace Bytes

variable {b b' : Bytes}

/-- Bytes that stand for characters. -/
def IsText (b : Bytes) : Prop := ∃ s, ofString s = b

theorem isText_iff : b.IsText ↔ (⟨b.toArray⟩ : ByteArray).IsValidUTF8 := by
  constructor
  · rintro ⟨s, rfl⟩
    exact s.isValidUTF8
  · intro h
    exact ⟨⟨_, h⟩, rfl⟩

theorem isText_iff_of_append (h : (b ++ b').IsText) : b.IsText ↔ b'.IsText := by
  rw [isText_iff] at h ⊢
  rw [isText_iff]
  generalize hx : (⟨b.toArray⟩ : ByteArray) = x
  generalize hy : (⟨b'.toArray⟩ : ByteArray) = y
  rw [show (⟨(b ++ b').toArray⟩ : ByteArray) = x ++ y by rw [← hx, ← hy, ByteArray.ext_iff]; simp] at h
  let t : String := ⟨x ++ y, h⟩
  have hfront := String.Pos.Raw.isValid_iff_isValidUTF8_extract_zero (s := t) (p := ⟨x.size⟩)
  have hback := String.Pos.Raw.isValid_iff_isValidUTF8_extract_utf8ByteSize (s := t) (p := ⟨x.size⟩)
  have hx : t.toByteArray.extract 0 x.size = x := ByteArray.extract_append_eq_left rfl
  have hy : t.toByteArray.extract x.size t.utf8ByteSize = y :=
    ByteArray.extract_append_eq_right rfl ByteArray.size_append
  have hle : (⟨x.size⟩ : String.Pos.Raw) ≤ t.rawEndPos := by
    rw [String.Pos.Raw.le_iff]
    show x.size ≤ (x ++ y).size
    rw [ByteArray.size_append]
    omega
  simp only [hx, hle, true_and] at hfront
  simp only [hy, hle, true_and] at hback
  exact hfront.symm.trans hback

theorem isText_ofChars (cs : List Char) : (ofChars cs).IsText :=
  ⟨String.ofList cs, by rw [ofString_eq_ofChars, String.toList_ofList]⟩

/-- The text of bytes without the blanks around it. -/
def trimmed? (b : Bytes) : Option String := b.toString?.map trimmed

theorem trimmed?_ofChars (cs : List Char) : trimmed? (ofChars cs) = some (String.ofList (Text.trim cs)) := by
  rw [trimmed?, toString?_ofChars, Option.map_some, trimmed, String.toList_ofList]

theorem trimmed?_eq_none_iff : trimmed? b = none ↔ ¬b.IsText := by
  rw [trimmed?, Option.map_eq_none_iff]
  constructor
  · rintro h ⟨s, rfl⟩
    rw [toString?_ofString] at h
    cases h
  · intro h
    cases hs : b.toString? with
    | none => rfl
    | some s => exact absurd ⟨s, ofString_of_toString? hs⟩ h

variable {ws : List Char}

theorem IsText.exists_chars (h : b.IsText) : ∃ cs, b = ofChars cs := by
  obtain ⟨s, rfl⟩ := h
  exact ⟨s.toList, ofString_eq_ofChars s⟩

theorem trimmed?_append_blank (h : ∀ c ∈ ws, isBlank c = true) (b : Bytes) :
    trimmed? (b ++ ofChars ws) = trimmed? b := by
  by_cases hb : b.IsText
  · obtain ⟨cs, rfl⟩ := hb.exists_chars
    rw [← ofChars_append, trimmed?_ofChars, trimmed?_ofChars, Text.trim_append_of_blank h]
  · rw [trimmed?_eq_none_iff.mpr hb, trimmed?_eq_none_iff]
    exact fun hall => hb ((isText_iff_of_append hall).mpr (isText_ofChars ws))

theorem trimmed?_blank_append (h : ∀ c ∈ ws, isBlank c = true) (b : Bytes) :
    trimmed? (ofChars ws ++ b) = trimmed? b := by
  by_cases hb : b.IsText
  · obtain ⟨cs, rfl⟩ := hb.exists_chars
    rw [← ofChars_append, trimmed?_ofChars, trimmed?_ofChars, Text.trim, Text.trimStart_append_of_blank h, Text.trim]
  · rw [trimmed?_eq_none_iff.mpr hb, trimmed?_eq_none_iff]
    exact fun hall => hb ((isText_iff_of_append hall).mp (isText_ofChars ws))

/-! ### Lines -/

/-- Blanks that stand in one line. -/
def IsPadding (w : Bytes) : Prop := ∃ cs, (∀ c ∈ cs, isBlank c = true ∧ c ≠ '\n') ∧ w = ofChars cs

/-- A line that consists of `core` and of blanks around it, with its newline or without. -/
def Padded (core line : Bytes) : Prop :=
  ∃ w w', IsPadding w ∧ IsPadding w' ∧ (line = w ++ core ++ w' ∨ line = w ++ core ++ w' ++ [newline])

/-- Two lines that differ only in the blanks around them and in their endings. -/
def Alike (l l' : Bytes) : Prop := ∃ core, newline ∉ core ∧ Padded core l ∧ Padded core l'

/-- Two lists of lines that differ only in blanks around lines and in blank lines. -/
inductive Respaced : List Bytes → List Bytes → Prop
  | nil : Respaced [] []
  | line {l l' : Bytes} {ls ls' : List Bytes} (hl : Alike l l') (h : Respaced ls ls') : Respaced (l :: ls) (l' :: ls')
  | blank_left {l : Bytes} {ls ls' : List Bytes} (hl : Padded [] l) (h : Respaced ls ls') : Respaced (l :: ls) ls'
  | blank_right {l' : Bytes} {ls ls' : List Bytes} (hl : Padded [] l') (h : Respaced ls ls') : Respaced ls (l' :: ls')

/-- Two definitions that differ only in blanks around lines and in blank lines behind the line of the first member. -/
inductive SameInk : List Bytes → List Bytes → Prop
  | nil : SameInk [] []
  | header {l l' : Bytes} (hl : Alike l l') : SameInk [l] [l']
  | members {l l' m m' : Bytes} {ls ls' : List Bytes} (hl : Alike l l') (hm : Alike m m') (h : Respaced ls ls') :
      SameInk (l :: m :: ls) (l' :: m' :: ls')

variable {core l l' : Bytes}

theorem IsPadding.trimmed?_append (h : IsPadding b') (b : Bytes) : trimmed? (b ++ b') = trimmed? b := by
  obtain ⟨ws, hws, rfl⟩ := h
  exact trimmed?_append_blank (fun c hc => (hws c hc).1) b

theorem IsPadding.trimmed?_append_right (h : IsPadding b) (b' : Bytes) : trimmed? (b ++ b') = trimmed? b' := by
  obtain ⟨ws, hws, rfl⟩ := h
  exact trimmed?_blank_append (fun c hc => (hws c hc).1) b'

theorem IsPadding.newline_not_mem (h : IsPadding b) : newline ∉ b := by
  obtain ⟨ws, hws, rfl⟩ := h
  rw [newline_mem_ofChars_iff]
  exact fun hn => (hws _ hn).2 rfl

theorem isPadding_return : IsPadding [carriageReturn] := ⟨['\r'], by simp [isBlank], by decide⟩

theorem padded_ofString {cs : List Char} {line : String} (ws ws' : List Char)
    (h : ∀ c ∈ ws ++ ws', isBlank c = true ∧ c ≠ '\n')
    (hl : line.toList = ws ++ cs ++ ws' ∨ line.toList = ws ++ cs ++ ws' ++ ['\n']) :
    Padded (ofChars cs) (ofString line) := by
  rw [List.forall_mem_append] at h
  refine ⟨ofChars ws, ofChars ws', ⟨ws, h.1, rfl⟩, ⟨ws', h.2, rfl⟩, ?_⟩
  rw [ofString_eq_ofChars]
  rcases hl with hl | hl
  · exact .inl (by rw [hl, ofChars_append, ofChars_append])
  · exact .inr (by rw [hl, ofChars_append, ofChars_append, ofChars_append]; rfl)

/-- A carriage return that is cut off with the newline is a blank. -/
theorem trimmed?_stripEnding_ended (b : Bytes) : trimmed? (stripEnding (b ++ [newline])) = trimmed? b := by
  rw [stripEnding_append_newline]
  split
  · next h =>
    obtain ⟨b, rfl⟩ := List.getLast?_eq_some_iff.mp h
    rw [List.dropLast_concat, isPadding_return.trimmed?_append]
  · rfl

theorem Padded.trimmed?_stripEnding (h : Padded core l) (hn : newline ∉ core) :
    trimmed? (stripEnding l) = trimmed? core := by
  obtain ⟨w, w', hw, hw', rfl | rfl⟩ := h
  · have hall : newline ∉ w ++ core ++ w' := by simp [hw.newline_not_mem, hn, hw'.newline_not_mem]
    rw [stripEnding_of_not_mem hall, hw'.trimmed?_append, hw.trimmed?_append_right]
  · rw [trimmed?_stripEnding_ended, hw'.trimmed?_append, hw.trimmed?_append_right]

end Bytes

namespace Source

/-- The lines that can be read, as bytes. -/
def readable (s : Source) : List Bytes :=
  match s.fault with
  | none => s.bytes.lines
  | some _ => s.bytes.lines.filter Bytes.isEnded

theorem lines_eq (s : Source) : s.lines = s.readable.map lineText ++ s.fault.toList.map .error := by
  unfold lines readable
  cases s.fault <;> simp

/-- Two sources with the same definition, apart from blanks. -/
structure SameInk (s s' : Source) : Prop where
  fault : s.fault = s'.fault
  lines : Bytes.SameInk s.readable s'.readable

theorem map_trimmed_lineText (l : Bytes) :
    (lineText l).map trimmed =
      match (Bytes.stripEnding l).trimmed? with
      | some text => .ok text
      | none => .error .invalidUtf8 := by
  rw [lineText, Bytes.trimmed?]
  cases (Bytes.stripEnding l).toString? <;> rfl

variable {l l' : Bytes}

theorem map_trimmed_of_alike (h : Bytes.Alike l l') : (lineText l).map trimmed = (lineText l').map trimmed := by
  obtain ⟨core, hn, hl, hl'⟩ := h
  rw [map_trimmed_lineText, map_trimmed_lineText, hl.trimmed?_stripEnding hn, hl'.trimmed?_stripEnding hn]

theorem map_trimmed_of_blank (h : Bytes.Padded [] l) : (lineText l).map trimmed = .ok "" := by
  have hempty : Bytes.trimmed? [] = some "" := Bytes.trimmed?_ofChars []
  rw [map_trimmed_lineText, h.trimmed?_stripEnding List.not_mem_nil, hempty]

end Source

/-! ### Readings -/

/-- Two outcomes that agree in what they give, in what can be seen of their states and in the questions on the way.
They may fail in different ways. -/
structure Outcome.Agrees {σ τ ε α : Type} (view : σ → τ) (o o' : Outcome σ ε α) : Prop where
  result : o.result.toOption = o'.result.toOption
  state : view o.state = view o'.state
  asked : askedTypes o.events = askedTypes o'.events

namespace Outcome.Agrees

variable {σ τ ε α : Type} {s : σ} {es : List Event} {o o' : Outcome σ ε α}

theorem ok_iff {view : σ → τ} (h : Agrees view o o') (x : α) : o.result = .ok x ↔ o'.result = .ok x := by
  have hr := h.result
  rcases o with ⟨e | y, s, es⟩ <;> rcases o' with ⟨e' | y', s', es'⟩
  · simp
  · cases hr
  · cases hr
  · cases hr
    rfl

theorem exists_ok {x : α} (h : Agrees id ⟨.ok x, s, es⟩ o) :
    ∃ es', o = ⟨.ok x, s, es'⟩ ∧ askedTypes es = askedTypes es' := by
  rcases o with ⟨_ | x', s', es'⟩
  · cases h.result
  · cases h.result
    cases h.state
    exact ⟨es', rfl, h.asked⟩

theorem exists_error {e : ε} (h : Agrees id ⟨.error e, s, es⟩ o) :
    ∃ e' es', o = ⟨.error e', s, es'⟩ ∧ askedTypes es = askedTypes es' := by
  rcases o with ⟨e' | _, s', es'⟩
  · cases h.state
    exact ⟨e', es', rfl, h.asked⟩
  · cases h.result

end Outcome.Agrees

theorem toOption_bind_congr {ε α β : Type} {r r' : Except ε α} {f f' : α → Except ε β}
    (h : r.toOption = r'.toOption) (hf : ∀ x, (f x).toOption = (f' x).toOption) :
    (r.bind f).toOption = (r'.bind f').toOption := by
  rcases r with e | x <;> rcases r' with e' | x'
  · rfl
  · cases h
  · cases h
  · cases h
    exact hf x

theorem Declarator.toOption_parsed (token : String) (line line' : Nat) :
    (parsed token line).toOption = (parsed token line').toOption := by
  rcases parsed_cases token with ⟨d, hd⟩ | hd | hd <;> rw [hd, hd] <;> rfl

namespace Conversion

open Outcome

variable {ρ : Type} [SizeSource ρ]

/-! ### Line numbers count for messages only -/

theorem agrees_sizing (c : Conversion ρ) (typeName : String) (line line' : Nat) :
    Agrees id ((sizing typeName line).run c) ((sizing typeName line').run c) := by
  cases hp : primitiveSize? typeName with
  | some n =>
    rw [run_sizing_builtIn hp, run_sizing_builtIn hp]
    exact ⟨rfl, rfl, rfl⟩
  | none =>
    cases hk : c.catalog.size? typeName with
    | some n =>
      rw [run_sizing_known hp hk, run_sizing_known hp hk]
      exact ⟨rfl, rfl, rfl⟩
    | none =>
      obtain ⟨es, hs, hq⟩ := run_sizing_unknown line ⟨hp, hk⟩
      obtain ⟨es', hs', hq'⟩ := run_sizing_unknown line' ⟨hp, hk⟩
      rw [hs, hs']
      refine ⟨?_, rfl, hq.trans hq'.symm⟩
      rcases c.reply typeName with fault | _ | answer <;> rfl

theorem place_eq (m : MemberLine) (line offset : Nat) (s : Sizing) :
    place m line offset s = (Declarator.parsed m.declarator line).bind fun d =>
      if maxSize < s.size * d.count.getD 0 then .error (.invalidArraySize m.declarator line)
      else .ok (fieldOf m s d offset) := by
  unfold place
  cases Declarator.parsed m.declarator line <;> rfl

theorem toOption_place (m : MemberLine) (line line' offset : Nat) (s : Sizing) :
    (place m line offset s).toOption = (place m line' offset s).toOption := by
  rw [place_eq, place_eq]
  refine toOption_bind_congr (Declarator.toOption_parsed m.declarator line line') fun d => ?_
  split <;> rfl

theorem agrees_readField (c : Conversion ρ) (text : String) (line line' offset : Nat) :
    Agrees id ((readField text line offset).run c) ((readField text line' offset).run c) := by
  cases hm : MemberLine.ofString? (trimmed text) with
  | none =>
    rw [run_readField_malformed hm, run_readField_malformed hm]
    exact ⟨rfl, rfl, rfl⟩
  | some m =>
    obtain ⟨es, hr, hq⟩ := run_readField c line offset hm
    obtain ⟨es', hr', hq'⟩ := run_readField c line' offset hm
    obtain ⟨hres, hst, has⟩ := agrees_sizing c m.typeName line line'
    rw [hr, hr']
    exact ⟨toOption_bind_congr hres (toOption_place m line line' offset), hst, hq.trans (has.trans hq'.symm)⟩

/-! ### Lines with the same text -/

/-- The same text apart from blanks around it, or the same failure. -/
def NumberedLine.SameText (line line' : NumberedLine) : Prop := line.text.map trimmed = line'.text.map trimmed

namespace NumberedLine.SameText

variable {line line' : NumberedLine} {raw text : String} {fault : IoFault}

theorem exists_ok (h : line.SameText line') (hl : line.text = .ok raw) :
    ∃ raw', line'.text = .ok raw' ∧ trimmed raw' = trimmed raw := by
  rw [SameText, hl] at h
  cases hl' : line'.text with
  | error fault => rw [hl'] at h; cases h
  | ok raw' =>
    rw [hl'] at h
    exact ⟨raw', rfl, (Except.ok.inj h).symm⟩

theorem error (h : line.SameText line') (hl : line.text = .error fault) : line'.text = .error fault := by
  rw [SameText, hl] at h
  cases hl' : line'.text with
  | error fault' => rw [hl'] at h; cases h; rfl
  | ok raw' => rw [hl'] at h; cases h

theorem member (h : line.SameText line') (hl : line.Member text) : line'.Member text := by
  obtain ⟨raw, hl, rfl, hne⟩ := hl
  obtain ⟨raw', hl', ht⟩ := h.exists_ok hl
  exact ⟨raw', hl', ht, hne⟩

end NumberedLine.SameText

namespace Reached

/-- Two readings that have come equally far, whatever the numbers of their lines. -/
structure Like (s s' : Reached ρ) : Prop where
  conversion : s.conversion = s'.conversion
  fields : s.fields = s'.fields
  asked : askedTypes s.events = askedTypes s'.events

variable {s s' t : Reached ρ} {line line' : NumberedLine} {rest rest' : List NumberedLine}
variable {o : Outcome (Reading ρ) DefinitionError (List Field)}

omit [SizeSource ρ] in
theorem Like.offset (h : Like s s') : s.offset = s'.offset := by rw [Reached.offset, h.fields, Reached.offset]

theorem Like.readField (h : Like s s') (text : String) (line line' : Nat) :
    Agrees id ((readField text line s.offset).run s.conversion)
      ((readField text line' s'.offset).run s'.conversion) := by
  rw [← h.offset, ← h.conversion]
  exact agrees_readField s.conversion text line line' s.offset

theorem Takes.like (h : s.Takes line t) (hs : Like s s') (hl : line.SameText line') :
    ∃ t', s'.Takes line' t' ∧ Like t t' := by
  cases h with
  | blank ht hb hf =>
    obtain ⟨raw', ht', hb'⟩ := hl.exists_ok ht
    exact ⟨_, .blank ht' (hb'.trans hb) (hs.fields ▸ hf), hs.conversion, hs.fields, hs.asked⟩
  | @field text f c es hm hr hf =>
    have hag := hs.readField text line.number line'.number
    rw [hr] at hag
    obtain ⟨es', hr', hq⟩ := hag.exists_ok
    refine ⟨_, .field (hl.member hm) hr' hf, rfl, ?_, ?_⟩
    · show s.fields ++ [f] = s'.fields ++ [f]
      rw [hs.fields]
    · show askedTypes (s.events ++ es) = askedTypes (s'.events ++ es')
      rw [askedTypes_append, askedTypes_append, hs.asked, hq]

theorem Stops.like (h : s.Stops line o) (hs : Like s s') (hl : line.SameText line') :
    ∃ o', s'.Stops line' o' ∧ Agrees Reading.conversion o o' := by
  cases h with
  | unreadable ht => exact ⟨_, .unreadable (hl.error ht), rfl, hs.conversion, hs.asked⟩
  | ended ht he =>
    obtain ⟨raw', ht', heq⟩ := hl.exists_ok ht
    refine ⟨_, .ended ht' ?_, congrArg some hs.fields, hs.conversion, hs.asked⟩
    rwa [heq, ← hs.fields]
  | @refused text e c es hm hr =>
    have hag := hs.readField text line.number line'.number
    rw [hr] at hag
    obtain ⟨e', es', hr', hq⟩ := hag.exists_error
    exact ⟨_, .refused (hl.member hm) hr', rfl, rfl, by simp [hs.asked, hq]⟩
  | @tooLarge text f c es hm hr hf =>
    have hag := hs.readField text line.number line'.number
    rw [hr] at hag
    obtain ⟨es', hr', hq⟩ := hag.exists_ok
    exact ⟨_, .tooLarge (hl.member hm) hr' hf, rfl, rfl, by simp [hs.asked, hq]⟩

theorem Like.agrees_go_cons (hs : Like s s') (hl : line.SameText line')
    (h : ∀ t t' : Reached ρ, Like t t' → t.fields ≠ [] → Agrees Reading.conversion (t.go rest) (t'.go rest')) :
    Agrees Reading.conversion (s.go (line :: rest)) (s'.go (line' :: rest')) := by
  rcases takes_or_stops s line with ⟨t, ht⟩ | ⟨o, ho⟩
  · obtain ⟨t', ht', htt⟩ := ht.like hs hl
    rw [go_of_takes ht, go_of_takes ht']
    exact h t t' htt ht.fields_ne_nil
  · obtain ⟨o', ho', hoo⟩ := ho.like hs hl
    rw [go_of_stops ho, go_of_stops ho']
    exact hoo

end Reached

/-- Lines with their numbers, behind the first `n` lines. -/
def numberedFrom (n : Nat) (texts : List (Except IoFault String)) : List NumberedLine :=
  (texts.zipIdx n).map fun (text, i) => ⟨i + 1, text⟩

theorem numberedFrom_cons (n : Nat) (text : Except IoFault String) (texts : List (Except IoFault String)) :
    numberedFrom n (text :: texts) = ⟨n + 1, text⟩ :: numberedFrom (n + 1) texts := rfl

theorem numberedLines_eq (source : Source) :
    numberedLines source = numberedFrom 0 (source.readable.map Source.lineText ++ source.fault.toList.map .error) := by
  rw [← source.lines_eq]
  rfl

section Go

variable {s s' : Reached ρ} {ls ls' : List Bytes}

theorem Reached.Like.agrees_go (hs : s.Like s') (texts : List (Except IoFault String)) (n n' : Nat) :
    Agrees Reading.conversion (s.go (numberedFrom n texts)) (s'.go (numberedFrom n' texts)) := by
  induction texts generalizing s s' n n' with
  | nil =>
    show Agrees _ (s.go []) (s'.go [])
    rw [Reached.go_nil, Reached.go_nil]
    exact ⟨congrArg some hs.fields, hs.conversion, hs.asked⟩
  | cons text texts ih =>
    rw [numberedFrom_cons, numberedFrom_cons]
    exact hs.agrees_go_cons rfl fun t t' ht _ => ih ht (n + 1) (n' + 1)

/-- A blank line behind a member is taken alone, and leaves the reading where it was. -/
theorem Reached.go_blank (hf : s.fields ≠ []) {l : Bytes} (hl : Bytes.Padded [] l) (n : Nat)
    (rest : List NumberedLine) :
    s.go (⟨n, Source.lineText l⟩ :: rest) = s.next.go rest := by
  have hblank := Source.map_trimmed_of_blank hl
  cases ht : Source.lineText l with
  | error fault => rw [ht] at hblank; cases hblank
  | ok raw =>
    rw [ht] at hblank
    exact Reached.go_of_takes (.blank rfl (Except.ok.inj hblank) hf)

/-- Behind a member, lists of lines that differ only in blanks are read alike. -/
theorem Respaced.go (h : Bytes.Respaced ls ls') (hs : s.Like s') (hf : s.fields ≠ [])
    (more : List (Except IoFault String)) (n n' : Nat) :
    Agrees Reading.conversion (s.go (numberedFrom n (ls.map Source.lineText ++ more)))
      (s'.go (numberedFrom n' (ls'.map Source.lineText ++ more))) := by
  induction h generalizing s s' n n' with
  | nil => exact hs.agrees_go more n n'
  | line hl _ ih =>
    rw [List.map_cons, List.map_cons, List.cons_append, List.cons_append, numberedFrom_cons, numberedFrom_cons]
    exact hs.agrees_go_cons (Source.map_trimmed_of_alike hl) fun t t' ht hne => ih ht hne (n + 1) (n' + 1)
  | blank_left hl _ ih =>
    rw [List.map_cons, List.cons_append, numberedFrom_cons, Reached.go_blank hf hl]
    have hnext : s.next.Like s' := ⟨hs.conversion, hs.fields, hs.asked⟩
    exact ih hnext hf (n + 1) n'
  | blank_right hl _ ih =>
    rw [List.map_cons, List.cons_append, numberedFrom_cons, Reached.go_blank (hs.fields ▸ hf) hl]
    have hnext : s.Like s'.next := ⟨hs.conversion, hs.fields, hs.asked⟩
    exact ih hnext hf n (n' + 1)

end Go

variable {header header' : NumberedLine} {rest rest' : List NumberedLine}

omit [SizeSource ρ] in
theorem closed_of_agrees {o o' : Outcome (Reading ρ) DefinitionError (List Field)} (name : String)
    (h : Agrees Reading.conversion o o') : closed name o = closed name o' := by
  obtain ⟨hr, hc, -⟩ := h
  rcases o with ⟨e | fields, r, es⟩ <;> rcases o' with ⟨e' | fields', r', es'⟩
  · exact hc
  · cases hr
  · cases hr
  · cases hr
    simp only [closed, show r.conversion = r'.conversion from hc]

theorem agrees_readLines (c : Conversion ρ) (hl : header.SameText header')
    (h : Agrees Reading.conversion ((Reached.start c).go rest) ((Reached.start c).go rest')) :
    Agrees Reading.conversion ((readLines (header :: rest)).run ⟨c, 0⟩)
      ((readLines (header' :: rest')).run ⟨c, 0⟩) := by
  cases ht : header.text with
  | error fault =>
    rw [run_readLines_unreadable ht, run_readLines_unreadable (hl.error ht)]
    exact ⟨rfl, rfl, rfl⟩
  | ok raw =>
    obtain ⟨raw', ht', heq⟩ := hl.exists_ok ht
    have hname : headerName? raw' = headerName? raw := by rw [← headerName?_trimmed, heq, headerName?_trimmed]
    cases hn : headerName? raw with
    | none =>
      rw [run_readLines_malformed ht hn, run_readLines_malformed ht' (hname.trans hn)]
      exact ⟨rfl, rfl, rfl⟩
    | some name =>
      obtain ⟨es, hr, hq⟩ := run_readLines_header c rest ht hn
      obtain ⟨es', hr', hq'⟩ := run_readLines_header c rest' ht' (hname.trans hn)
      rw [hr, hr']
      exact ⟨toOption_bind_congr h.result fun _ => rfl, closed_of_agrees name h, hq.trans (h.asked.trans hq'.symm)⟩

/-- Blanks do not matter. Two sources whose definitions differ only in the blanks around lines and in blank lines behind
the first member are both read, and then as the same definition, or both refused. In either case the readings leave the
same conversion, with its catalog and its size source, and they ask the same questions. -/
theorem reading_ignores_blanks (c : Conversion ρ) {source source' : Source} (h : source.SameInk source') :
    let o := readRecord.run (c, source)
    let o' := readRecord.run (c, source')
    (∀ d, o.result = .ok d ↔ o'.result = .ok d) ∧ o.state.1 = o'.state.1 ∧
      askedTypes o.events = askedTypes o'.events := by
  intro o o'
  have hlines : Agrees Reading.conversion ((readLines (numberedLines source)).run ⟨c, 0⟩)
      ((readLines (numberedLines source')).run ⟨c, 0⟩) := by
    obtain ⟨hfault, hink⟩ := h
    rw [numberedLines_eq, numberedLines_eq, hfault]
    generalize source.readable = ls at hink ⊢
    generalize source'.readable = ls' at hink ⊢
    have hstart : (Reached.start c).Like (Reached.start c) := ⟨rfl, rfl, rfl⟩
    rcases hink with _ | hl | ⟨hl, hm, hrest⟩
    · exact ⟨rfl, rfl, rfl⟩
    · exact agrees_readLines c (Source.map_trimmed_of_alike hl) (hstart.agrees_go _ 1 1)
    · refine agrees_readLines c (Source.map_trimmed_of_alike hl) ?_
      exact hstart.agrees_go_cons (Source.map_trimmed_of_alike hm) fun t t' ht hne => Respaced.go hrest ht hne _ 2 2
  exact ⟨hlines.ok_iff, hlines.state, hlines.asked⟩

/-- Other line endings, wide blanks around lines, blank lines between members, and no newline at the end. -/
theorem reading_ignores_blanks_ragged :
    let c : Conversion Prompt := ⟨"", .ofEntries [], .ofString "-4\n", .ofLimit .never⟩
    let source : Source := .ofString "struct A\nUInt8 x;\nB y[2]; a  b\n\x7d;\n"
    let source' : Source := .ofString "\tstruct A\r\n  UInt8 x;\r\n\u3000\n\nB y[2]; a  b\u2003\n\x7d; "
    source.SameInk source' ∧
      (∃ d, (readRecord.run (c, source)).result = .ok d ∧ (readRecord.run (c, source')).result = .ok d) ∧
      (readRecord.run (c, source')).state.1 = (readRecord.run (c, source)).state.1 ∧
      askedTypes (readRecord.run (c, source')).events = ["B"] := by
  intro c source source'
  have hs : source.readable = ["struct A\n", "UInt8 x;\n", "B y[2]; a  b\n", "\x7d;\n"].map Bytes.ofString := by
    decide +kernel
  have hs' : source'.readable = ["\tstruct A\r\n", "  UInt8 x;\r\n", "\u3000\n", "\n", "B y[2]; a  b\u2003\n",
      "\x7d; "].map Bytes.ofString := by decide +kernel
  have hplain {text line : String} (h : line.toList = text.toList ++ ['\n']) :
      Bytes.Padded (Bytes.ofChars text.toList) (Bytes.ofString line) :=
    Bytes.padded_ofString [] [] (by simp) (.inr (by simpa using h))
  have hink : source.SameInk source' := by
    refine ⟨rfl, ?_⟩
    rw [hs, hs']
    refine .members ?_ ?_ (.blank_right ?_ (.blank_right ?_ (.line ?_ (.line ?_ .nil))))
    · exact ⟨Bytes.ofChars "struct A".toList, by decide +kernel, hplain rfl,
        Bytes.padded_ofString ['\t'] ['\r'] (by simp [isBlank]) (.inr rfl)⟩
    · exact ⟨Bytes.ofChars "UInt8 x;".toList, by decide +kernel, hplain rfl,
        Bytes.padded_ofString [' ', ' '] ['\r'] (by simp [isBlank]) (.inr rfl)⟩
    · show Bytes.Padded (Bytes.ofChars []) _
      exact Bytes.padded_ofString ['\u3000'] [] (by simp [isBlank]) (.inr rfl)
    · show Bytes.Padded (Bytes.ofChars "".toList) _
      exact hplain rfl
    · exact ⟨Bytes.ofChars "B y[2]; a  b".toList, by decide +kernel, hplain rfl,
        Bytes.padded_ofString [] ['\u2003'] (by simp [isBlank]) (.inr rfl)⟩
    · exact ⟨Bytes.ofChars "\x7d;".toList, by decide +kernel, hplain rfl,
        Bytes.padded_ofString [] [' '] (by simp [isBlank]) (.inl rfl)⟩
  obtain ⟨hok, hstate, hasked⟩ := reading_ignores_blanks c hink
  have hread : ∃ d, (readRecord.run (c, source)).result = .ok d := by
    match hr : (readRecord.run (c, source)).result with
    | .ok d => exact ⟨d, rfl⟩
    | .error e =>
      have hnone : (readRecord.run (c, source)).result.toOption.isSome = true := by decide +kernel
      rw [hr] at hnone
      cases hnone
  obtain ⟨d, hd⟩ := hread
  exact ⟨hink, ⟨d, hd, (hok d).mp hd⟩, hstate.symm, hasked.symm.trans (by decide +kernel)⟩

end Conversion

end RecordLayout
