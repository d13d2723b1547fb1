import RecordLayout.Proofs.Questions

/-!
# Reading a list of members

A list of members is read line by line. A line is taken (`Takes`), or it stops the reading (`Stops`):
because it cannot be read, because it ends the list, or because its field is refused. Every reading
takes the lines of a first part and then ends with the input, or with a line that stops it
(`go_cases`); what stands behind that line does not matter. A failure names the line that stops the
reading, unless it is one of input or output (`Stops.atLine`).
-/

namespace RecordLayout

namespace DefinitionError

/-- The line of a member that a failure names. -/
def memberLine? : DefinitionError → Option Nat
  | .malformedMember line _ | .unresolvableType _ line | .invalidArraySize _ line => some line
  | .malformedHeader _ _ | .io _ => none

/-- The failure names a line, or it is one of input or output. -/
def AtLine (e : DefinitionError) (line : Nat) : Prop := e.memberLine? = some line ∨ ∃ fault, e = .io fault

end DefinitionError

namespace Declarator

def parsed (token : String) (line : Nat) : Except DefinitionError Declarator :=
  ((read token line : Action Unit DefinitionError Declarator).run ()).result

theorem run_read {σ : Type} (token : String) (line : Nat) (s : σ) :
    ∃ es, (read token line : Action σ DefinitionError Declarator).run s = ⟨parsed token line, s, es⟩ ∧
      askedTypes es = [] := by
  unfold parsed read
  dsimp only
  split
  · exact ⟨_, rfl, rfl⟩
  · split
    · exact ⟨_, rfl, rfl⟩
    · split
      · exact ⟨_, rfl, rfl⟩
      · split <;> exact ⟨_, rfl, rfl⟩

theorem parsed_cases (token : String) :
    (∃ d, ∀ line, parsed token line = .ok d) ∨ (∀ line, parsed token line = .error (.malformedMember line token)) ∨
      ∀ line, parsed token line = .error (.invalidArraySize token line) := by
  unfold parsed read
  dsimp only
  split
  · exact .inr (.inl fun _ => rfl)
  · split
    · exact .inl ⟨_, fun _ => rfl⟩
    · split
      · exact .inr (.inr fun _ => rfl)
      · split <;> exact .inl ⟨_, fun _ => rfl⟩

theorem atLine_parsed {token : String} {line : Nat} {e : DefinitionError} (h : parsed token line = .error e) :
    e.AtLine line := by
  rcases parsed_cases token with ⟨d, hd⟩ | hd | hd
  · rw [hd] at h; cases h
  · rw [hd] at h; cases h; exact .inl rfl
  · rw [hd] at h; cases h; exact .inl rfl

end Declarator

namespace Conversion

/-- The field of a member line at an offset. -/
def fieldOf (m : MemberLine) (s : Sizing) (d : Declarator) (offset : Nat) : Field where
  offset := offset
  elementSize := s.size
  count := d.count
  typeName := m.typeName
  targetType := targetType m.typeName
  identifier := d.identifier
  description := m.description
  isRecord := s.isRecord
  isClassName := s.isClassName

/-- What a member line gives once its type has a size. -/
def place (m : MemberLine) (line offset : Nat) (s : Sizing) : Except DefinitionError Field :=
  match Declarator.parsed m.declarator line with
  | .error e => .error e
  | .ok d =>
    if maxSize < s.size * d.count.getD 0 then .error (.invalidArraySize m.declarator line)
    else .ok (fieldOf m s d offset)

variable {ρ : Type} [SizeSource ρ]

section ReadField

variable {c c' : Conversion ρ} {text : String} {line offset : Nat} {m : MemberLine} {f : Field}
variable {es : List Event}

theorem run_readField_malformed (h : MemberLine.ofString? (trimmed text) = none) :
    (readField text line offset).run c = ⟨.error (.malformedMember line text), c, []⟩ := by
  simp only [readField, h, Action.run_fail]

/-- Reading a field is sizing its type, and then placing it, which neither asks nor changes anything. -/
theorem run_readField (c : Conversion ρ) (line offset : Nat)
    (h : MemberLine.ofString? (trimmed text) = some m) :
    ∃ es, (readField text line offset).run c =
        ⟨((sizing m.typeName line).run c).result.bind (place m line offset),
          ((sizing m.typeName line).run c).state, es⟩ ∧
      askedTypes es = askedTypes ((sizing m.typeName line).run c).events := by
  simp only [readField, h, Action.run_bind]
  match hs : (sizing m.typeName line).run c with
  | ⟨.error e, c', es⟩ => exact ⟨es, rfl, rfl⟩
  | ⟨.ok s, c', es⟩ =>
    obtain ⟨es', hd, hq⟩ := Declarator.run_read m.declarator line c'
    simp only [hd, Except.bind, place]
    cases Declarator.parsed m.declarator line with
    | error e => exact ⟨_, rfl, by simp [hq]⟩
    | ok d =>
      dsimp only
      split
      · exact ⟨_, rfl, by simp [hq]⟩
      · exact ⟨_, rfl, by simp [hq, Action.run_bind]⟩

theorem asks_readField (c : Conversion ρ) (text : String) (line offset : Nat) :
    Asks c (askedTypes ((readField text line offset).run c).events)
      ((readField text line offset).run c).state := by
  cases h : MemberLine.ofString? (trimmed text) with
  | none => rw [run_readField_malformed h]; exact .nil c
  | some m =>
    obtain ⟨es, hr, hq⟩ := run_readField c line offset h
    rw [hr, hq]
    exact asks_sizing c m.typeName line

theorem asked_readField (c : Conversion ρ) (text : String) (line offset : Nat) :
    askedTypes ((readField text line offset).run c).events = [] ∨
      ∃ m, MemberLine.ofString? (trimmed text) = some m ∧
        askedTypes ((readField text line offset).run c).events = [m.typeName] := by
  cases hm : MemberLine.ofString? (trimmed text) with
  | none => rw [run_readField_malformed hm]; exact .inl rfl
  | some m =>
    obtain ⟨es, hr, hq⟩ := run_readField c line offset hm
    rw [hr]
    rcases asked_sizing c m.typeName line with he | he
    · exact .inl (hq.trans he)
    · exact .inr ⟨m, rfl, hq.trans he⟩

theorem learns_readField (h : (readField text line offset).run c = ⟨.ok f, c', es⟩) :
    Learns c (askedTypes es) c' := by
  cases hm : MemberLine.ofString? (trimmed text) with
  | none => rw [run_readField_malformed hm] at h; cases h
  | some m =>
    obtain ⟨es', hr, hq⟩ := run_readField c line offset hm
    rw [hr, Outcome.mk.injEq] at h
    obtain ⟨hf, hc, rfl⟩ := h
    rw [hq]
    match hs : (sizing m.typeName line).run c with
    | ⟨.error e, c₁, es₁⟩ => rw [hs] at hf; cases hf
    | ⟨.ok s, c₁, es₁⟩ =>
      rw [hs] at hc
      obtain rfl : c₁ = c' := hc
      exact learns_sizing hs

theorem exists_of_readField (h : (readField text line offset).run c = ⟨.ok f, c', es⟩) :
    ∃ m s d, MemberLine.ofString? (trimmed text) = some m ∧ SizedBy c m.typeName s c' ∧
      Declarator.parsed m.declarator line = .ok d ∧ s.size * d.count.getD 0 ≤ maxSize ∧
      f = fieldOf m s d offset := by
  cases hm : MemberLine.ofString? (trimmed text) with
  | none => rw [run_readField_malformed hm] at h; cases h
  | some m =>
    obtain ⟨es', hr, -⟩ := run_readField c line offset hm
    rw [hr, Outcome.mk.injEq] at h
    obtain ⟨hf, hc, -⟩ := h
    match hs : (sizing m.typeName line).run c with
    | ⟨.error e, c₁, es₁⟩ => rw [hs] at hf; cases hf
    | ⟨.ok s, c₁, es₁⟩ =>
      rw [hs] at hf hc
      obtain rfl : c₁ = c' := hc
      simp only [Except.bind, place] at hf
      cases hd : Declarator.parsed m.declarator line with
      | error e => rw [hd] at hf; cases hf
      | ok d =>
        rw [hd] at hf
        dsimp only at hf
        split at hf
        · cases hf
        · cases hf
          exact ⟨m, s, d, rfl, sizedBy_of_sizing hs, hd, by omega, rfl⟩

theorem offset_readField (h : (readField text line offset).run c = ⟨.ok f, c', es⟩) :
    f.offset = offset := by
  obtain ⟨m, s, d, -, -, -, -, rfl⟩ := exists_of_readField h
  rfl

theorem atLine_sizing {e : DefinitionError} {typeName : String}
    (h : ((sizing typeName line).run c).result = .error e) : e.AtLine line := by
  cases hp : primitiveSize? typeName with
  | some n => rw [run_sizing_builtIn hp] at h; cases h
  | none =>
    cases hk : c.catalog.size? typeName with
    | some n => rw [run_sizing_known hp hk] at h; cases h
    | none =>
      obtain ⟨es, hs, -⟩ := run_sizing_unknown line ⟨hp, hk⟩
      rw [hs] at h
      match hr : c.reply typeName with
      | .ok (some answer) => rw [hr] at h; cases h
      | .ok none => rw [hr] at h; cases h; exact .inl rfl
      | .error fault => rw [hr] at h; cases h; exact .inr ⟨fault, rfl⟩

theorem atLine_readField {e : DefinitionError}
    (h : (readField text line offset).run c = ⟨.error e, c', es⟩) : e.AtLine line := by
  cases hm : MemberLine.ofString? (trimmed text) with
  | none =>
    rw [run_readField_malformed hm] at h
    cases h
    exact .inl rfl
  | some m =>
    obtain ⟨es', hr, -⟩ := run_readField c line offset hm
    rw [hr, Outcome.mk.injEq] at h
    have he := h.1
    cases hs : ((sizing m.typeName line).run c).result with
    | error e' =>
      rw [hs] at he
      cases he
      exact atLine_sizing hs
    | ok s =>
      rw [hs, Except.bind, place] at he
      split at he
      · next hd => cases he; exact Declarator.atLine_parsed hd
      · split at he <;> cases he
        exact .inl rfl

end ReadField

/-- A line that was read, and is neither blank nor the terminator. -/
def NumberedLine.Member (line : NumberedLine) (text : String) : Prop :=
  ∃ raw, line.text = .ok raw ∧ trimmed raw = text ∧ text ≠ terminator ∧ text ≠ ""

section ReadFields

variable {fields : List Field} {offset : Nat} {line : NumberedLine} {rest : List NumberedLine}
variable {r : Reading ρ} {raw text : String}

def Reading.next {ρ : Type} (r : Reading ρ) : Reading ρ := { r with linesRead := r.linesRead + 1 }

theorem run_readFields_unreadable {fault : IoFault} (hl : line.text = .error fault) :
    (readFields fields offset (line :: rest)).run r = ⟨.error (.io fault), r.next, []⟩ := by
  have ht : (takeLine line).run r = ⟨.error (.io fault), r.next, []⟩ := by
    rw [takeLine, Action.run_bind, hl]; rfl
  rw [readFields, Action.run_bind_error ht]

omit [SizeSource ρ] in
theorem run_takeLine (hl : line.text = .ok raw) : (takeLine line).run r = ⟨.ok raw, r.next, []⟩ := by
  rw [takeLine, Action.run_bind, hl]; rfl

theorem run_readFields_terminator (hl : line.text = .ok raw) (ht : trimmed raw = terminator) :
    (readFields fields offset (line :: rest)).run r = ⟨.ok fields, r.next, []⟩ := by
  rw [readFields, Action.run_bind_ok (run_takeLine hl), if_pos ht]
  rfl

theorem run_readFields_blank (hl : line.text = .ok raw) (hb : trimmed raw = "") :
    (readFields fields offset (line :: rest)).run r =
      if fields = [] then ⟨.ok fields, r.next, []⟩ else (readFields fields offset rest).run r.next := by
  rw [readFields, Action.run_bind_ok (run_takeLine hl), if_neg (by rw [hb]; decide), if_pos hb]
  simp only [List.isEmpty_iff]
  split <;> rfl

variable {c : Conversion ρ} {es : List Event}

theorem run_readFields_refused {e : DefinitionError} (hl : line.Member text)
    (hr : (readField text line.number offset).run r.conversion = ⟨.error e, c, es⟩) :
    (readFields fields offset (line :: rest)).run r =
      ⟨.error e, { r.next with conversion := c }, es⟩ := by
  obtain ⟨raw, hl, rfl, ht, hb⟩ := hl
  have hw : (onConversion (readField (trimmed raw) line.number offset)).run r.next =
      ⟨.error e, { r.next with conversion := c }, es⟩ := by
    rw [onConversion, Action.run_within, show r.next.conversion = r.conversion from rfl, hr]
  rw [readFields, Action.run_bind_ok (run_takeLine hl), if_neg ht, if_neg hb, Action.run_bind_error hw]
  rfl

theorem run_readFields_field {f : Field} (hl : line.Member text)
    (hr : (readField text line.number offset).run r.conversion = ⟨.ok f, c, es⟩) :
    (readFields fields offset (line :: rest)).run r =
      if maxSize < f.stop then
        ⟨.error (.invalidArraySize f.identifier line.number), { r.next with conversion := c }, es⟩
      else
        let o := (readFields (fields ++ [f]) f.stop rest).run { r.next with conversion := c }
        ⟨o.result, o.state, es ++ o.events⟩ := by
  obtain ⟨raw, hl, rfl, ht, hb⟩ := hl
  have hw : (onConversion (readField (trimmed raw) line.number offset)).run r.next =
      ⟨.ok f, { r.next with conversion := c }, es⟩ := by
    rw [onConversion, Action.run_within, show r.next.conversion = r.conversion from rfl, hr]
  rw [readFields, Action.run_bind_ok (run_takeLine hl), if_neg ht, if_neg hb, Action.run_bind_ok hw]
  split
  · rw [Action.run_fail, List.nil_append, List.append_nil]
  · rw [List.nil_append]

end ReadFields

/-- How far the reading of a list of members has come. -/
structure Reached (ρ : Type) extends Reading ρ where
  fields : List Field
  events : List Event

namespace Reached

def offset (s : Reached ρ) : Nat := Field.totalSize s.fields

def next (s : Reached ρ) : Reached ρ := { s with toReading := s.toReading.next }

def go (s : Reached ρ) (lines : List NumberedLine) : Outcome (Reading ρ) DefinitionError (List Field) :=
  let o := (readFields s.fields s.offset lines).run s.toReading
  ⟨o.result, o.state, s.events ++ o.events⟩

/-- A line is accepted, and the list goes on: a blank line behind a field, or a member that fits. -/
inductive Takes (s : Reached ρ) (line : NumberedLine) : Reached ρ → Prop
  | blank {raw : String} (hl : line.text = .ok raw) (hb : trimmed raw = "") (hf : s.fields ≠ []) :
      Takes s line s.next
  | field {text : String} {f : Field} {c : Conversion ρ} {es : List Event} (hl : line.Member text)
      (hr : (readField text line.number s.offset).run s.conversion = ⟨.ok f, c, es⟩)
      (hf : f.stop ≤ maxSize) :
      Takes s line
        { s.next with conversion := c, fields := s.fields ++ [f], events := s.events ++ es }

/-- A line stops the reading. -/
inductive Stops (s : Reached ρ) (line : NumberedLine) :
    Outcome (Reading ρ) DefinitionError (List Field) → Prop
  | unreadable {fault : IoFault} (hl : line.text = .error fault) :
      Stops s line ⟨.error (.io fault), s.next.toReading, s.events⟩
  | ended {raw : String} (hl : line.text = .ok raw)
      (he : trimmed raw = terminator ∨ trimmed raw = "" ∧ s.fields = []) :
      Stops s line ⟨.ok s.fields, s.next.toReading, s.events⟩
  | refused {text : String} {e : DefinitionError} {c : Conversion ρ} {es : List Event}
      (hl : line.Member text)
      (hr : (readField text line.number s.offset).run s.conversion = ⟨.error e, c, es⟩) :
      Stops s line ⟨.error e, { s.next.toReading with conversion := c }, s.events ++ es⟩
  | tooLarge {text : String} {f : Field} {c : Conversion ρ} {es : List Event} (hl : line.Member text)
      (hr : (readField text line.number s.offset).run s.conversion = ⟨.ok f, c, es⟩)
      (hf : maxSize < f.stop) :
      Stops s line ⟨.error (.invalidArraySize f.identifier line.number),
        { s.next.toReading with conversion := c }, s.events ++ es⟩

variable {s s' : Reached ρ} {l : NumberedLine} {lines rest : List NumberedLine}
variable {o : Outcome (Reading ρ) DefinitionError (List Field)}

theorem takes_or_stops (s : Reached ρ) (line : NumberedLine) :
    (∃ s', s.Takes line s') ∨ ∃ o, s.Stops line o := by
  cases hl : line.text with
  | error fault => exact .inr ⟨_, .unreadable hl⟩
  | ok raw =>
    by_cases ht : trimmed raw = terminator
    · exact .inr ⟨_, .ended hl (.inl ht)⟩
    by_cases hb : trimmed raw = ""
    · by_cases hf : s.fields = []
      · exact .inr ⟨_, .ended hl (.inr ⟨hb, hf⟩)⟩
      · exact .inl ⟨_, .blank hl hb hf⟩
    have hm : line.Member (trimmed raw) := ⟨raw, hl, rfl, ht, hb⟩
    match hr : (readField (trimmed raw) line.number s.offset).run s.conversion with
    | ⟨.error e, c, es⟩ => exact .inr ⟨_, .refused hm hr⟩
    | ⟨.ok f, c, es⟩ =>
      by_cases hf : maxSize < f.stop
      · exact .inr ⟨_, .tooLarge hm hr hf⟩
      · exact .inl ⟨_, .field hm hr (by omega)⟩

theorem go_of_takes (h : s.Takes l s') : s.go (l :: rest) = s'.go rest := by
  cases h with
  | blank hl hb hf =>
    rw [go, run_readFields_blank hl hb, if_neg hf]
    rfl
  | @field text f c es hl hr hf =>
    -- reading goes on at the end of the field, which is the size of all fields so far
    have hs : s.offset + f.size = f.stop := by rw [← offset_readField hr]; rfl
    rw [go, run_readFields_field hl hr, if_neg (Nat.not_lt.mpr hf)]
    simp [go, offset, ← hs, next]

theorem go_of_stops (h : s.Stops l o) : s.go (l :: rest) = o := by
  cases h with
  | unreadable hl => rw [go, run_readFields_unreadable hl]; simp [next]
  | ended hl he =>
    rcases he with ht | ⟨hb, hf⟩
    · rw [go, run_readFields_terminator hl ht]; simp [next]
    · rw [go, run_readFields_blank hl hb, if_pos hf]; simp [next]
  | refused hl hr =>
    rw [go, run_readFields_refused hl hr]
    rfl
  | tooLarge hl hr hf =>
    rw [go, run_readFields_field hl hr, if_pos hf]
    rfl

theorem Stops.atLine {e : DefinitionError} (h : s.Stops l o) (he : o.result = .error e) : e.AtLine l.number := by
  cases h with
  | unreadable => cases he; exact .inr ⟨_, rfl⟩
  | ended => cases he
  | refused hl hr => cases he; exact atLine_readField hr
  | tooLarge => cases he; exact .inl rfl

theorem Takes.fields_ne_nil (h : s.Takes l s') : s'.fields ≠ [] := by
  cases h with
  | blank _ _ hf => exact hf
  | field => simp

theorem go_nil (s : Reached ρ) : s.go [] = ⟨.ok s.fields, s.toReading, s.events⟩ := by
  simp [go, readFields]

inductive Accepts : Reached ρ → List NumberedLine → Reached ρ → Prop
  | nil (s : Reached ρ) : Accepts s [] s
  | cons {s s' s'' : Reached ρ} {line : NumberedLine} {lines : List NumberedLine}
      (h : s.Takes line s') (hs : Accepts s' lines s'') : Accepts s (line :: lines) s''

theorem go_of_accepts (h : Accepts s lines s') : s.go (lines ++ rest) = s'.go rest := by
  induction h with
  | nil => rfl
  | cons h _ ih => rw [List.cons_append, go_of_takes h, ih]

/-- Every reading accepts a first part of the lines; then the input ends, or a line stops it. -/
theorem go_cases (s : Reached ρ) (lines : List NumberedLine) :
    (∃ s', Accepts s lines s' ∧ s.go lines = s'.go []) ∨
      ∃ pre line post s' o, lines = pre ++ line :: post ∧ Accepts s pre s' ∧ s'.Stops line o ∧
        s.go lines = o := by
  induction lines generalizing s with
  | nil => exact .inl ⟨s, .nil s, rfl⟩
  | cons line rest ih =>
    rcases takes_or_stops s line with ⟨s', h⟩ | ⟨o, h⟩
    · rcases ih s' with ⟨s'', ha, hg⟩ | ⟨pre, l, post, s'', o, rfl, ha, hst, hg⟩
      · exact .inl ⟨s'', .cons h ha, by rw [go_of_takes h, hg]⟩
      · exact .inr ⟨line :: pre, l, post, s'', o, rfl, .cons h ha, hst, by rw [go_of_takes h, hg]⟩
    · exact .inr ⟨[], line, rest, s, o, rfl, .nil s, h, go_of_stops h⟩

/-- A property of the state that every accepted line keeps holds wherever the reading comes. -/
theorem Accepts.invariant {P : Reached ρ → Prop} (h : Accepts s lines s')
    (hP : ∀ s line s', line ∈ lines → P s → Takes s line s' → P s') (hs : P s) : P s' := by
  induction h with
  | nil => exact hs
  | cons ht _ ih =>
    exact ih (fun _ _ _ hl => hP _ _ _ (List.mem_cons_of_mem _ hl)) (hP _ _ _ List.mem_cons_self hs ht)

theorem Takes.learns (h : s.Takes l s') :
    ∃ es, s'.events = s.events ++ es ∧ Learns s.conversion (askedTypes es) s'.conversion := by
  cases h with
  | blank => exact ⟨[], by simp [next], .nil _⟩
  | @field text f c es hl hr hf => exact ⟨es, rfl, learns_readField hr⟩

theorem Accepts.learns (h : Accepts s lines s') :
    ∃ es, s'.events = s.events ++ es ∧ Learns s.conversion (askedTypes es) s'.conversion := by
  induction h with
  | nil s => exact ⟨[], by simp, .nil _⟩
  | cons ht _ ih =>
    obtain ⟨es, he, ha⟩ := ht.learns
    obtain ⟨es', he', ha'⟩ := ih
    exact ⟨es ++ es', by rw [he', he, List.append_assoc], by rw [askedTypes_append]; exact ha.trans ha'⟩

theorem Stops.asks (h : s.Stops l o) :
    ∃ es, o.events = s.events ++ es ∧ Asks s.conversion (askedTypes es) o.state.conversion ∧
      (askedTypes es).length ≤ 1 := by
  cases h with
  | unreadable => exact ⟨[], by simp, .nil _, by simp⟩
  | ended => exact ⟨[], by simp, .nil _, by simp⟩
  | @refused text e c es hl hr | @tooLarge text f c es hl hr hf =>
    have ha := asks_readField s.conversion text l.number s.offset
    have hq := asked_readField s.conversion text l.number s.offset
    rw [hr] at ha hq
    refine ⟨es, rfl, ha, ?_⟩
    rcases hq with hq | ⟨m, -, hq⟩ <;> simp [hq]

/-- Reading members, to their end or to a failure, is a run of questions, of which only the last one can
stay without an answer. -/
theorem learns_go (s : Reached ρ) (lines : List NumberedLine) :
    ∃ es ts c₁ last, (s.go lines).events = s.events ++ es ∧ askedTypes es = ts ++ last ∧
      Learns s.conversion ts c₁ ∧ Asks c₁ last (s.go lines).state.conversion ∧ last.length ≤ 1 := by
  rcases go_cases s lines with ⟨s', ha, hg⟩ | ⟨pre, line, post, s', o, rfl, ha, hst, hg⟩
  · obtain ⟨es, he, hl⟩ := ha.learns
    rw [hg, go_nil]
    exact ⟨es, _, _, [], he, (List.append_nil _).symm, hl, .nil _, Nat.zero_le 1⟩
  · obtain ⟨es, he, hl⟩ := ha.learns
    obtain ⟨es', he', ha', hone⟩ := hst.asks
    rw [hg]
    exact ⟨es ++ es', _, _, _, by rw [he', he, List.append_assoc], askedTypes_append _ _, hl, ha', hone⟩

theorem asks_go (s : Reached ρ) (lines : List NumberedLine) :
    ∃ es, (s.go lines).events = s.events ++ es ∧
      Asks s.conversion (askedTypes es) (s.go lines).state.conversion := by
  obtain ⟨es, ts, c₁, last, he, hq, hl, ha, -⟩ := learns_go s lines
  exact ⟨es, he, by rw [hq]; exact hl.asks.trans ha⟩

theorem exists_accepts_of_go_ok {fields : List Field} (h : (s.go lines).result = .ok fields) :
    ∃ pre rest s', lines = pre ++ rest ∧ Accepts s pre s' ∧ s'.fields = fields ∧
      (s.go lines).state.conversion = s'.conversion ∧ (s.go lines).events = s'.events := by
  rcases go_cases s lines with ⟨s', ha, hg⟩ | ⟨pre, line, post, s', o, rfl, ha, hst, hg⟩
  · rw [hg, go_nil] at h ⊢
    cases h
    exact ⟨lines, [], s', by simp, ha, rfl, rfl, rfl⟩
  · rw [hg] at h ⊢
    cases hst with
    | ended hl he =>
      cases h
      exact ⟨pre, _, s', rfl, ha, rfl, rfl, rfl⟩
    | unreadable => cases h
    | refused => cases h
    | tooLarge => cases h

end Reached

/-- The state in which the members of a definition are read: its header is used up. -/
def Reached.start {ρ : Type} (c : Conversion ρ) : Reached ρ := ⟨⟨c, 1⟩, [], []⟩

/-- What the end of its members makes of a conversion: the size of a record that was read is recorded. -/
def closed {ρ : Type} (name : String) (o : Outcome (Reading ρ) DefinitionError (List Field)) :
    Conversion ρ :=
  match o.result with
  | .ok fields =>
    { o.state.conversion with
      catalog := o.state.conversion.catalog.recorded name (RecordDef.size ⟨name, fields⟩) }
  | .error _ => o.state.conversion

theorem Reached.go_start (c : Conversion ρ) (lines : List NumberedLine) :
    (start c).go lines = (readFields [] 0 lines).run ⟨c, 1⟩ := rfl

section ReadFrom

variable {c : Conversion ρ} {source : Source} {header : NumberedLine} {rest : List NumberedLine}
variable {raw name : String}

theorem run_readFrom (c : Conversion ρ) (source : Source) :
    (readFrom source).run c =
      let o := (readLines (numberedLines source)).run ⟨c, 0⟩
      ⟨o.result, o.state.conversion, o.events⟩ := rfl

theorem run_readLines_unreadable {fault : IoFault} (hl : header.text = .error fault) :
    (readLines (header :: rest)).run ⟨c, 0⟩ = ⟨.error (.io fault), ⟨c, 1⟩, []⟩ := by
  have ht : (takeLine header).run (⟨c, 0⟩ : Reading ρ) = ⟨.error (.io fault), ⟨c, 1⟩, []⟩ := by
    rw [takeLine, Action.run_bind, hl]; rfl
  rw [readLines, Action.run_bind_error ht]

theorem run_readLines_malformed (hl : header.text = .ok raw) (hn : headerName? raw = none) :
    (readLines (header :: rest)).run ⟨c, 0⟩ =
      ⟨.error (.malformedHeader header.number raw), ⟨c, 1⟩, []⟩ := by
  rw [readLines, Action.run_bind_ok (run_takeLine hl), Action.run_bind, readHeader, hn]
  rfl

omit [SizeSource ρ] in
theorem run_readHeader (r : Reading ρ) (line : Nat) (hn : headerName? raw = some name) :
    (Action.ofExcept (readHeader raw line)).run r = ⟨.ok name, r, []⟩ := by
  rw [readHeader, hn]
  rfl

theorem run_readLines_header (c : Conversion ρ) (rest : List NumberedLine) (hl : header.text = .ok raw)
    (hn : headerName? raw = some name) :
    ∃ es, (readLines (header :: rest)).run ⟨c, 0⟩ =
        ⟨((Reached.start c).go rest).result.map (RecordDef.mk name),
          { ((Reached.start c).go rest).state with
            conversion := closed name ((Reached.start c).go rest) }, es⟩ ∧
      askedTypes es = askedTypes ((Reached.start c).go rest).events := by
  rw [Reached.go_start, readLines, Action.run_bind_ok (run_takeLine hl), Action.run_bind, readHeader, hn]
  simp only [Action.run_ofExcept, Action.run_bind, Action.run_log]
  show ∃ es, _ = _ ∧ _ = askedTypes ((readFields [] 0 rest).run (⟨c, 1⟩ : Reading ρ)).events
  rw [show (Reading.next ⟨c, 0⟩ : Reading ρ) = ⟨c, 1⟩ from rfl]
  match hr : (readFields [] 0 rest).run (⟨c, 1⟩ : Reading ρ) with
  | ⟨.error e, r, es⟩ => exact ⟨_, rfl, by simp⟩
  | ⟨.ok fields, r, es⟩ =>
    obtain ⟨new, es', h, hq⟩ := run_record (ε := DefinitionError) r.conversion name
      (RecordDef.size ⟨name, fields⟩)
    simp only [onConversion, Action.run_within, h]
    exact ⟨_, rfl, by simp [hq]⟩

/-- A definition is refused at once, or its members are read and its size is recorded. Its lines alone say
which, in whatever conversion it is read. -/
theorem readFrom_form (source : Source) :
    (∃ e, ∀ {ρ : Type} [SizeSource ρ] (c : Conversion ρ), (readFrom source).run c = ⟨.error e, c, []⟩) ∨
      ∃ header rest raw name, numberedLines source = header :: rest ∧ header.text = .ok raw ∧
        headerName? raw = some name ∧
        ∀ {ρ : Type} [SizeSource ρ] (c : Conversion ρ), ∃ es,
          (readFrom source).run c = ⟨((Reached.start c).go rest).result.map (RecordDef.mk name),
            closed name ((Reached.start c).go rest), es⟩ ∧
          askedTypes es = askedTypes ((Reached.start c).go rest).events := by
  match hs : numberedLines source with
  | [] =>
    refine .inl ⟨.malformedHeader 1 "", fun c => ?_⟩
    rw [run_readFrom, hs]
    rfl
  | header :: rest =>
    cases hl : header.text with
    | error fault =>
      refine .inl ⟨.io fault, fun c => ?_⟩
      rw [run_readFrom, hs, run_readLines_unreadable hl]
    | ok raw =>
      cases hn : headerName? raw with
      | none =>
        refine .inl ⟨.malformedHeader header.number raw, fun c => ?_⟩
        rw [run_readFrom, hs, run_readLines_malformed hl hn]
      | some name =>
        refine .inr ⟨header, rest, raw, name, rfl, hl, hn, fun c => ?_⟩
        obtain ⟨es, h, hq⟩ := run_readLines_header c rest hl hn
        rw [run_readFrom, hs, h]
        exact ⟨es, rfl, hq⟩

theorem readFrom_cases (c : Conversion ρ) (source : Source) :
    (∃ e, (readFrom source).run c = ⟨.error e, c, []⟩) ∨
      ∃ header rest raw name es, numberedLines source = header :: rest ∧ header.text = .ok raw ∧
        headerName? raw = some name ∧
        (readFrom source).run c = ⟨((Reached.start c).go rest).result.map (RecordDef.mk name),
          closed name ((Reached.start c).go rest), es⟩ ∧
        askedTypes es = askedTypes ((Reached.start c).go rest).events := by
  rcases readFrom_form source with ⟨e, he⟩ | ⟨header, rest, raw, name, hl, ht, hn, hr⟩
  · exact .inl ⟨e, he c⟩
  · obtain ⟨es, hr, hq⟩ := hr c
    exact .inr ⟨header, rest, raw, name, es, hl, ht, hn, hr, hq⟩

theorem exists_of_readFrom_ok {d : RecordDef} (h : ((readFrom source).run c).result = .ok d) :
    ∃ header rest raw, numberedLines source = header :: rest ∧ header.text = .ok raw ∧
      headerName? raw = some d.name ∧ ((Reached.start c).go rest).result = .ok d.fields ∧
      ((readFrom source).run c).state.catalog =
        ((Reached.start c).go rest).state.conversion.catalog.recorded d.name d.size ∧
      askedTypes ((readFrom source).run c).events = askedTypes ((Reached.start c).go rest).events := by
  rcases readFrom_cases c source with ⟨e, he⟩ | ⟨header, rest, raw, name, es, hl, ht, hn, hr, hq⟩
  · rw [he] at h; cases h
  · rw [hr] at h ⊢
    cases hg : ((Reached.start c).go rest).result with
    | error e => rw [hg] at h; cases h
    | ok fields =>
      rw [hg] at h
      cases h
      exact ⟨header, rest, raw, hl, ht, hn, hg, by simp only [closed, hg], hq⟩

/-- A definition that is read is read line by line, so that what every accepted line keeps holds at its end. -/
theorem readFrom_invariant {P : Reached ρ → Prop}
    (hP : ∀ s line s', line ∈ numberedLines source → P s → s.Takes line s' → P s')
    (h₀ : P (Reached.start c)) {d : RecordDef} (h : ((readFrom source).run c).result = .ok d) :
    ∃ s : Reached ρ, P s ∧ s.fields = d.fields ∧
      ((readFrom source).run c).state.catalog = s.conversion.catalog.recorded d.name d.size ∧
      askedTypes ((readFrom source).run c).events = askedTypes s.events := by
  obtain ⟨header, rest, raw, hlines, -, -, hg, hcat, hq⟩ := exists_of_readFrom_ok h
  obtain ⟨pre, post, s, rfl, ha, hf, hc, he⟩ := Reached.exists_accepts_of_go_ok hg
  have hpre : ∀ line ∈ pre, line ∈ numberedLines source := fun line hl => by
    rw [hlines]
    exact List.mem_cons_of_mem _ (List.mem_append_left _ hl)
  exact ⟨s, ha.invariant (fun s line s' hl => hP s line s' (hpre line hl)) h₀, hf, by rw [hcat, hc], by rw [hq, he]⟩

end ReadFrom

end Conversion

end RecordLayout
