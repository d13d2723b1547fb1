import RecordLayout.Proofs.ConversionRun
import RecordLayout.Proofs.Independence

/-!
# Converting a text again

A text that was converted has left an entry for every type that it uses, and entries stay (`Extends`). A
later conversion of the text therefore takes the same lines and finds in the catalog what the first one
may have been told (`Repeats`): it asks nothing and changes nothing. Only the marks of answers are missing
in the fields that it reads, and record code does not show them.
-/

namespace RecordLayout

namespace SizeCatalog

variable {k k' k'' : SizeCatalog} {name : String} {size : Nat}

/-- The second catalog has all entries of the first one. -/
def Extends (k k' : SizeCatalog) : Prop := ∀ name n, k.find? name = some n → k'.find? name = some n

theorem Extends.trans (h : k.Extends k') (h' : k'.Extends k'') : k.Extends k'' :=
  fun name n hn => h' name n (h name n hn)

theorem extends_recorded (k : SizeCatalog) (name : String) (size : Nat) : k.Extends (k.recorded name size) :=
  fun _ _ => find?_recorded_of_some

theorem recorded_of_extends (h : (k.recorded name size).Extends k') : k'.recorded name size = k' := by
  rcases Nat.eq_zero_or_pos size with rfl | hs
  · exact if_pos rfl
  · obtain ⟨n, hn⟩ : ∃ n, (k.recorded name size).find? name = some n := by
      cases hf : k.find? name with
      | none => exact ⟨size, find?_recorded_self hf hs⟩
      | some n => exact ⟨n, find?_recorded_of_some hf⟩
    exact recorded_of_some (h name n hn)

end SizeCatalog

namespace Conversion

variable {ρ : Type} [SizeSource ρ] {c c' k : Conversion ρ}

theorem Asks.extends {ts : List String} (h : Asks c ts c') : c.catalog.Extends c'.catalog :=
  fun _ _ => h.find?_of_some

/-! ### What calls keep -/

/-- The conversion after calls, one after the other, whether they fail or not. -/
def afterCalls (c : Conversion ρ) (calls : List Call) : Conversion ρ :=
  calls.foldl (fun c call => (call.action.run c).state) c

theorem afterCalls_invariant {P : Conversion ρ → Prop} (hP : ∀ st : Step ρ, P st.before → P st.after)
    (calls : List Call) (hc : P c) : P (c.afterCalls calls) := by
  induction calls generalizing c with
  | nil => exact hc
  | cons call rest ih => exact ih (hP ⟨call, c⟩ hc)

theorem positive_afterCalls (calls : List Call) (h : c.catalog.Positive) :
    (c.afterCalls calls).catalog.Positive :=
  afterCalls_invariant (P := fun c => c.catalog.Positive) (fun _ h => Step.positive_after h) calls h

theorem extends_afterCalls (c : Conversion ρ) (calls : List Call) :
    c.catalog.Extends (c.afterCalls calls).catalog :=
  fun name n h => afterCalls_invariant (P := fun c => c.catalog.find? name = some n)
    (fun _ h => Step.find?_after h) calls h

theorem modulePath_afterCalls (c : Conversion ρ) (calls : List Call) :
    (c.afterCalls calls).modulePath = c.modulePath := by
  refine afterCalls_invariant (P := fun c' => c'.modulePath = c.modulePath) (fun st h => ?_) calls rfl
  rw [st.after_eq, modulePath_readFrom, h]

/-! ### Reading with a catalog that knows the types -/

variable {σ : Type} [SizeSource σ]

theorem Learns.of_append {ts ts' : List String} (h : Learns c (ts ++ ts') k) (ha : Asks c ts c') :
    Learns c' ts' k := by
  induction ha with
  | nil => exact h
  | cons _ _ ih =>
    cases h with
    | cons _ _ h => exact ih h

section Line

variable {k : Conversion σ} {t text : String} {line offset : Nat} {es : List Event}

theorem SizedBy.again {s : Sizing} (h : SizedBy c t s c') (hp : c.catalog.Positive)
    (hk : c'.catalog.Extends k.catalog) (line : Nat) :
    (sizing t line).run k = ⟨.ok s.unmarked, k, []⟩ := by
  cases h with
  | builtIn h => exact run_sizing_builtIn h
  | known hn h =>
    obtain ⟨hf, hpos⟩ := SizeCatalog.size?_eq_some_iff.mp h
    exact run_sizing_known hn (SizeCatalog.size?_eq_some_iff.mpr ⟨hk _ _ hf, hpos⟩)
  | @answered answer hu hr =>
    have hf := find?_afterAsking_self hr (hu.find?_eq_none hp)
    exact run_sizing_known hu.1 (SizeCatalog.size?_eq_some_iff.mpr ⟨hk _ _ hf, answer.size_pos⟩)

theorem exists_sizing_of_learns (h : Learns c (askedTypes ((sizing t line).run c).events) c') :
    ∃ s, ((sizing t line).run c).result = .ok s := by
  cases hp : primitiveSize? t with
  | some n =>
    rw [run_sizing_builtIn hp]
    exact ⟨_, rfl⟩
  | none =>
    cases hk : c.catalog.size? t with
    | some n =>
      rw [run_sizing_known hp hk]
      exact ⟨_, rfl⟩
    | none =>
      obtain ⟨es, hs, hq⟩ := run_sizing_unknown line ⟨hp, hk⟩
      rw [hs] at h ⊢
      rw [hq] at h
      obtain _ | ⟨-, hr, -⟩ := h
      rw [hr]
      exact ⟨_, rfl⟩

/-- A member line whose question, if any, was answered is read in the same way, or refused for the same reason, by
whoever knows as much. -/
theorem readField_again {r : Except DefinitionError Field} (hr : (readField text line offset).run c = ⟨r, c', es⟩)
    (hl : Learns c (askedTypes es) c') (hp : c.catalog.Positive) (hk : c'.catalog.Extends k.catalog) :
    ∃ es', (readField text line offset).run k = ⟨r.map Field.unmarked, k, es'⟩ ∧ askedTypes es' = [] := by
  cases hm : MemberLine.ofString? (trimmed text) with
  | none =>
    rw [run_readField_malformed hm] at hr ⊢
    cases hr
    exact ⟨[], rfl, rfl⟩
  | some m =>
    obtain ⟨es₁, hrun, hq⟩ := run_readField c line offset hm
    rw [hrun, Outcome.mk.injEq] at hr
    obtain ⟨rfl, rfl, rfl⟩ := hr
    rw [hq] at hl
    obtain ⟨s, hs⟩ := exists_sizing_of_learns hl
    have hsized := sizedBy_of_sizing (Outcome.eq_of_result hs)
    obtain ⟨es', hrun', hq'⟩ := run_readField k line offset hm
    rw [hsized.again hp hk line] at hrun' hq'
    refine ⟨es', ?_, hq'⟩
    rw [hrun', hs]
    exact congrArg (fun r => Outcome.mk r k es') (place_unmarked m line offset s).symm

end Line

namespace Reached

variable {s s₁ : Reached ρ} {q : Reached σ} {line : NumberedLine} {lines : List NumberedLine}
variable {o : Outcome (Reading ρ) DefinitionError (List Field)} {es : List Event}

/-- The second reading has come as far as the first one, without a question. -/
structure Repeats (s : Reached ρ) (q : Reached σ) : Prop where
  positive : s.conversion.catalog.Positive
  fields : q.fields = s.fields.map Field.unmarked
  silent : askedTypes q.events = []

namespace Repeats

omit [SizeSource ρ] [SizeSource σ] in
theorem offset (h : Repeats s q) : q.offset = s.offset := by
  rw [Reached.offset, h.fields, Field.totalSize_unmarked, Reached.offset]

omit [SizeSource ρ] [SizeSource σ] in
theorem fields_eq_nil_iff (h : Repeats s q) : q.fields = [] ↔ s.fields = [] := by
  rw [h.fields, List.map_eq_nil_iff]

theorem takes (h : Repeats s q) (ht : s.Takes line s₁)
    (hk : s₁.conversion.catalog.Extends q.conversion.catalog) :
    ∃ q₁, q.Takes line q₁ ∧ q₁.conversion = q.conversion ∧ Repeats s₁ q₁ := by
  cases ht with
  | blank hl hb hf =>
    exact ⟨q.next, .blank hl hb (mt h.fields_eq_nil_iff.mp hf), rfl, h.positive, h.fields, h.silent⟩
  | @field text f c es hl hr hf =>
    have hlearns := learns_readField hr
    obtain ⟨es', hr', hq⟩ := readField_again hr hlearns h.positive hk
    rw [← h.offset] at hr'
    refine ⟨_, .field hl hr' hf, rfl, hlearns.asks.positive h.positive, ?_, ?_⟩
    · rw [h.fields, List.map_append, List.map_singleton]
    · rw [askedTypes_append, h.silent, hq, List.append_nil]

/-- A line that stopped the reading stops it again, if it was not for want of an answer. -/
theorem stops (h : Repeats s q) (hst : s.Stops line o) (he : o.events = s.events ++ es)
    (hl : Learns s.conversion (askedTypes es) o.state.conversion)
    (hk : o.state.conversion.catalog.Extends q.conversion.catalog) :
    ∃ o', q.Stops line o' ∧ o'.result = o.result.map (List.map Field.unmarked) ∧
      o'.state.conversion = q.conversion ∧ askedTypes o'.events = [] := by
  cases hst with
  | unreadable ht => exact ⟨_, .unreadable ht, rfl, rfl, h.silent⟩
  | ended ht hend =>
    rw [← h.fields_eq_nil_iff] at hend
    exact ⟨_, .ended ht hend, congrArg Except.ok h.fields, rfl, h.silent⟩
  | @refused text e c es' hm hr =>
    obtain rfl : es' = es := List.append_cancel_left he
    obtain ⟨es₁, hr', hq⟩ := readField_again hr hl h.positive hk
    rw [← h.offset] at hr'
    exact ⟨_, .refused hm hr', rfl, rfl, by rw [askedTypes_append, h.silent, hq, List.append_nil]⟩
  | @tooLarge text f c es' hm hr hf =>
    obtain rfl : es' = es := List.append_cancel_left he
    obtain ⟨es₁, hr', hq⟩ := readField_again hr hl h.positive hk
    rw [← h.offset] at hr'
    exact ⟨_, .tooLarge hm hr' hf, rfl, rfl, by rw [askedTypes_append, h.silent, hq, List.append_nil]⟩

/-- A reading of which every question was answered ends in the same way for whoever knows as much. -/
theorem go (h : Repeats s q) (he : (s.go lines).events = s.events ++ es)
    (hl : Learns s.conversion (askedTypes es) (s.go lines).state.conversion)
    (hk : (s.go lines).state.conversion.catalog.Extends q.conversion.catalog) :
    (q.go lines).result = (s.go lines).result.map (List.map Field.unmarked) ∧
      (q.go lines).state.conversion = q.conversion ∧ askedTypes (q.go lines).events = [] := by
  induction lines generalizing s q es with
  | nil =>
    rw [go_nil, go_nil]
    exact ⟨congrArg Except.ok h.fields, rfl, h.silent⟩
  | cons line rest ih =>
    rcases takes_or_stops s line with ⟨s₁, ht⟩ | ⟨o, hst⟩
    · rw [go_of_takes ht] at he hl hk ⊢
      -- the questions of the line come first, and those behind it are the rest
      obtain ⟨es₁, he₁, hl₁⟩ := ht.learns
      obtain ⟨es₂, he₂, ha₂⟩ := asks_go s₁ rest
      obtain rfl : es₁ ++ es₂ = es := by
        rw [he₂, he₁, List.append_assoc] at he
        exact List.append_cancel_left he
      rw [askedTypes_append] at hl
      obtain ⟨q₁, ht', hq₁, h₁⟩ := h.takes ht (ha₂.extends.trans hk)
      rw [← hq₁] at hk
      rw [go_of_takes ht', ← hq₁]
      exact ih h₁ he₂ (hl.of_append hl₁.asks) hk
    · rw [go_of_stops hst] at he hl hk ⊢
      obtain ⟨o', hst', ho⟩ := h.stops hst he hl hk
      rw [go_of_stops hst']
      exact ho

end Repeats

end Reached

/-- A definition of which every question was answered gives its record, but for marks, or its error to whoever
knows as much. -/
theorem readFrom_informed {k : Conversion σ} {source : Source} (hp : c.catalog.Positive)
    (hl : Learns c (askedTypes ((readFrom source).run c).events) c') (hk : c'.catalog.Extends k.catalog) :
    let r := ((readFrom source).run c).result.map RecordDef.unmarked
    ∃ es, (readFrom source).run k = ⟨r, k.concluded r, es⟩ ∧ askedTypes es = [] := by
  rcases readFrom_form source with ⟨e, hr⟩ | ⟨header, rest, raw, name, -, -, -, hr⟩
  · rw [hr c, hr k]
    exact ⟨[], rfl, rfl⟩
  · obtain ⟨es, hrun, hq⟩ := hr c
    obtain ⟨es', hrun', hq'⟩ := hr k
    obtain ⟨es₁, he, ha⟩ := Reached.asks_go (Reached.start c) rest
    have hes₁ : askedTypes ((Reached.start c).go rest).events = askedTypes es₁ := congrArg askedTypes he
    rw [hrun] at hl ⊢
    rw [show askedTypes es = askedTypes es₁ from hq.trans hes₁] at hl
    obtain rfl : ((Reached.start c).go rest).state.conversion = c' := by
      rw [hl.asks.eq_afterQuestions]
      exact ha.eq_afterQuestions
    have hstart : Reached.Repeats (Reached.start c) (Reached.start k) := ⟨hp, rfl, rfl⟩
    obtain ⟨hresult, hstate, hasked⟩ := hstart.go he hl hk
    refine ⟨es', ?_, hq'.trans hasked⟩
    have hunmarked : (((Reached.start c).go rest).result.map (List.map Field.unmarked)).map (RecordDef.mk name) =
        (((Reached.start c).go rest).result.map (RecordDef.mk name)).map RecordDef.unmarked := by
      cases ((Reached.start c).go rest).result <;> rfl
    rw [hrun', closed_eq_concluded, hresult, hstate, hunmarked]
    rfl

theorem learns_readFrom {source : Source} {d : RecordDef} (hd : ((readFrom source).run c).result = .ok d) :
    ∃ c₁, Learns c (askedTypes ((readFrom source).run c).events) c₁ ∧
      ((readFrom source).run c).state.catalog = c₁.catalog.recorded d.name d.size := by
  obtain ⟨header, rest, raw, -, -, -, hgo, hcatalog, hq⟩ := exists_of_readFrom_ok hd
  obtain ⟨pre, post, s, -, hs, -, hstate, hevents⟩ := Reached.exists_accepts_of_go_ok hgo
  obtain ⟨es, he, hl⟩ := hs.learns
  refine ⟨s.conversion, ?_, by rw [hcatalog, hstate]⟩
  rw [hq, hevents, he]
  exact hl

/-- A definition that was read gives its record again, but for marks, to whoever knows as much as the reading
has left. -/
theorem readFrom_again {source : Source} {d : RecordDef} (hp : c.catalog.Positive)
    (hd : ((readFrom source).run c).result = .ok d)
    (hk : ((readFrom source).run c).state.catalog.Extends k.catalog) :
    ∃ es, (readFrom source).run k = ⟨.ok d.unmarked, k, es⟩ ∧ askedTypes es = [] := by
  obtain ⟨c₁, hl, hc₁⟩ := learns_readFrom hd
  rw [hc₁] at hk
  obtain ⟨es, hrun, hq⟩ := readFrom_informed hp hl ((SizeCatalog.extends_recorded _ _ _).trans hk)
  have hknown : k.catalog.recorded d.unmarked.name d.unmarked.size = k.catalog := by
    rw [RecordDef.size_unmarked]
    exact SizeCatalog.recorded_of_extends hk
  refine ⟨es, ?_, hq⟩
  rw [hrun, hd]
  show Outcome.mk _ { k with catalog := k.catalog.recorded d.unmarked.name d.unmarked.size } es = _
  rw [hknown]
  rfl

/-! ### A conversion and its repetition -/

theorem run_convertText_of_ok {text : String} {d : RecordDef} {es : List Event}
    (h : (readFrom (.ofString text)).run c = ⟨.ok d, c', es⟩) :
    (convertText text).run c = ⟨.ok (c'.render d), c', es⟩ := by
  rw [convertText, Action.run_bind_ok h, Action.run_bind_ok (Action.run_state c'), Action.run_pure]
  simp only [List.append_nil]

/-- In a run from a catalog without zero sizes, a text that was converted can be converted again at any
later time, whatever other calls have come before and in between: it gives the same record code, asks nothing
and leaves the conversion as it is. -/
theorem conversion_repeats (c : Conversion ρ) (earlier later : List Call) (text code : String)
    (hz : ∀ e ∈ c.catalog.entries, e.2 ≠ 0)
    (h : ((convertText text).run (c.afterCalls earlier)).result = .ok code) :
    let again := ((convertText text).run (c.afterCalls earlier)).state.afterCalls later
    ∃ es, (convertText text).run again = ⟨.ok code, again, es⟩ ∧ askedTypes es = [] := by
  intro again
  have hp := positive_afterCalls earlier (SizeCatalog.positive_of_entries hz)
  match hr : (readFrom (.ofString text)).run (c.afterCalls earlier) with
  | ⟨.error e, c₁, es⟩ =>
    rw [convertText, Action.run_bind_error hr] at h
    cases h
  | ⟨.ok d, c₁, es⟩ =>
    have hfirst := run_convertText_of_ok hr
    rw [hfirst] at h
    have hagain : again = c₁.afterCalls later := by
      show ((convertText text).run _).state.afterCalls later = _
      rw [hfirst]
    obtain ⟨es', hread, hq⟩ := readFrom_again (k := again) hp (by rw [hr])
      (by rw [hr, hagain]; exact extends_afterCalls c₁ later)
    refine ⟨es', ?_, hq⟩
    rw [run_convertText_of_ok hread, render, Code.render_unmarked, hagain, modulePath_afterCalls]
    exact congrArg (fun r => (⟨r, _, _⟩ : Outcome _ _ _)) h

/-- The first conversion is told both sizes, one of them for the record itself; the answers are used up. The record
is then defined anew with another size, and a call fails. -/
theorem conversion_repeats_redefined :
    let c : Conversion Responder := ⟨"", .empty, .prompt ⟨.ofString "12\n-4\n", .ofLimit .never⟩⟩
    let earlier : List Call := [.convertText "struct Bad\nUInt8\n\x7d;"]
    let text := "struct A\nBlob x;\nA next[2];\n\x7d;"
    let later : List Call := [.read (.ofString "struct A\nUInt8 b;\n\x7d;"), .convertText "struct B\nNope x;\n\x7d;"]
    let first := (convertText text).run (c.afterCalls earlier)
    let second := (convertText text).run (first.state.afterCalls later)
    askedTypes first.events = ["Blob", "A"] ∧ first.result.toBool = true ∧ second.result = first.result ∧
      askedTypes second.events = [] ∧ second.state = first.state.afterCalls later := by
  intro c earlier text later first second
  have hasked : askedTypes first.events = ["Blob", "A"] := by decide +kernel
  have hok : first.result.toBool = true := by decide +kernel
  obtain ⟨code, hcode⟩ : ∃ code, first.result = .ok code := by
    clear_value first
    cases hr : first.result with
    | error e => rw [hr] at hok; cases hok
    | ok code => exact ⟨code, rfl⟩
  obtain ⟨es, hsecond, hq⟩ := conversion_repeats c earlier later text code (by decide) hcode
  have hrun : second = ⟨.ok code, first.state.afterCalls later, es⟩ := hsecond
  -- from here on, what the conversions did must not be computed again
  clear_value second first
  subst hrun
  exact ⟨hasked, hok, hcode.symm, hq, rfl⟩

end Conversion

end RecordLayout
