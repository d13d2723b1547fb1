import RecordLayout.Proofs.CatalogGrowth
import RecordLayout.SizeSource.Responder

/-!
# Runs of a conversion

A conversion is used by call after call, and a call that fails does not end the run (`steps`). Each call
reads one definition; what it does besides leaves the conversion alone. `Accounted` is the invariant of a
run: every size that was given to a field is built in or an entry of the catalog, where it stays, so that a type has
one size in all records that are read.
-/

namespace RecordLayout

namespace SizeCatalog

variable {c : SizeCatalog} {name : String}

/-- The catalog has no entry of size zero. -/
def Positive (c : SizeCatalog) : Prop := ∀ name, c.find? name ≠ some 0

theorem positive_of_entries (h : ∀ e ∈ c.entries, e.2 ≠ 0) : c.Positive := by
  intro name hn
  obtain ⟨es, es', he, -⟩ := List.lookup_eq_some_iff.mp hn
  exact h (name, 0) (by rw [he]; simp) rfl

theorem Positive.recorded (h : c.Positive) (name : String) (size : Nat) : (c.recorded name size).Positive :=
  fun other ho => h other (find?_recorded_eq_zero_iff.mp ho)

end SizeCatalog

namespace Conversion

variable {ρ : Type} [SizeSource ρ] {c c' : Conversion ρ} {typeName : String} {ts : List String}

/-! ### Calls -/

/-- A use of a conversion. -/
inductive Call where
  | read (source : Source)
  | convert (source : Source) (sink : Sink)
  | convertText (text : String)

/-- What a call gives back. -/
inductive Product where
  | record (d : RecordDef)
  | code (text : String)

namespace Call

def source : Call → Source
  | .read source => source
  | .convert source _ => source
  | .convertText text => .ofString text

def action : Call → Action (Conversion ρ) DefinitionError Product
  | .read source => do return .record (← readFrom source)
  | .convert source sink => fun c =>
    let o := Conversion.convert.run ⟨c, source, sink⟩
    ⟨o.result.map .record, o.state.conversion, o.events⟩
  | .convertText text => do return .code (← Conversion.convertText text)

end Call

theorem run_readFrom_of_readRecord {source rest : Source} {r : Except DefinitionError RecordDef}
    {es : List Event} (h : readRecord.run (c, source) = ⟨r, (c', rest), es⟩) :
    (readFrom source).run c = ⟨r, c', es⟩ := by
  show Outcome.mk _ _ _ = _
  rw [h]

/-- Writes record code to a sink. -/
def deliver (text : String) : Action Sink IoFault Unit := do
  Sink.write (Bytes.ofString text)
  Sink.flush

theorem run_convert_error {source rest : Source} {sink : Sink} {e : DefinitionError} {es : List Event}
    (h : readRecord.run (c, source) = ⟨.error e, (c', rest), es⟩) :
    convert.run ⟨c, source, sink⟩ = ⟨.error e, ⟨c', rest, sink⟩, es⟩ := by
  rw [convert, Action.run_bind, Action.run_within, h]

theorem run_convert_ok {source rest : Source} {sink : Sink} {d : RecordDef} {es : List Event}
    (h : readRecord.run (c, source) = ⟨.ok d, (c', rest), es⟩) :
    convert.run ⟨c, source, sink⟩ =
      let w := (deliver (c'.render d)).run sink
      ⟨(w.result.mapError DefinitionError.io).map fun _ => d, ⟨c', rest, w.state⟩, es ++ w.events⟩ := by
  rw [convert, Action.run_bind, Action.run_within, h]
  dsimp only
  rw [Action.run_bind_ok (Action.run_state _), Action.run_bind, Action.run_within, Action.run_mapError]
  rw [show (do Sink.write (Bytes.ofString (c'.render d)); Sink.flush : Action Sink IoFault Unit) =
    deliver (c'.render d) from rfl]
  match (deliver (c'.render d)).run sink with
  | ⟨.error fault, sink', es'⟩ => simp [mapError_error, Except.map]
  | ⟨.ok (), sink', es'⟩ => simp [mapError_ok, Except.map]

/-- A call changes its conversion by reading a definition, and a record that it gives back is the one that
it read. -/
theorem Call.run_action (call : Call) (c : Conversion ρ) :
    let o := call.action.run c
    let r := (readFrom call.source).run c
    o.state = r.state ∧ askedTypes o.events = askedTypes r.events ∧
      ∀ d, o.result = .ok (.record d) → r.result = .ok d := by
  cases call with
  | read source =>
    simp only [action, Call.source, Action.run_bind]
    match (readFrom source).run c with
    | ⟨.error e, c', es⟩ => simp
    | ⟨.ok d, c', es⟩ => simp
  | convert source sink =>
    match hr : readRecord.run (c, source) with
    | ⟨.error e, (c', rest), es⟩ =>
      have ho : (Call.convert source sink).action.run c = ⟨.error e, c', es⟩ := by
        show Outcome.mk _ _ _ = _
        rw [run_convert_error hr]
        rfl
      rw [ho, show (readFrom (Call.convert source sink).source).run c = _ from run_readFrom_of_readRecord hr]
      simp
    | ⟨.ok d, (c', rest), es⟩ =>
      have hq : askedTypes ((deliver (c'.render d)).run sink).events = [] :=
        Action.Quiet.bind (Sink.quiet_write _) (fun _ => Sink.quiet_flush) sink
      have ho : (Call.convert source sink).action.run c =
          ⟨((((deliver (c'.render d)).run sink).result.mapError .io).map fun _ => d).map .record, c',
            es ++ ((deliver (c'.render d)).run sink).events⟩ := by
        show Outcome.mk _ _ _ = _
        rw [run_convert_ok hr]
      rw [ho, show (readFrom (Call.convert source sink).source).run c = _ from run_readFrom_of_readRecord hr]
      refine ⟨rfl, by simp [hq], fun d' hd' => ?_⟩
      cases hw : ((deliver (c'.render d)).run sink).result with
      | error fault => rw [hw] at hd'; cases hd'
      | ok _ => rw [hw] at hd'; cases hd'; rfl
  | convertText text =>
    simp only [action, Call.source, Conversion.convertText, Action.run_bind]
    match (readFrom (.ofString text)).run c with
    | ⟨.error e, c', es⟩ => simp
    | ⟨.ok d, c', es⟩ => simp

/-! ### Steps of a run -/

/-- A call of a run and the conversion that it finds. -/
structure Step (ρ : Type) where
  call : Call
  before : Conversion ρ

namespace Step

def outcome (st : Step ρ) : Outcome (Conversion ρ) DefinitionError Product := st.call.action.run st.before

def after (st : Step ρ) : Conversion ρ := st.outcome.state

def asked (st : Step ρ) : List String := askedTypes st.outcome.events

/-- How the reading of the definition ends, whatever is done with it later. -/
def reading (st : Step ρ) : Except DefinitionError RecordDef :=
  ((readFrom st.call.source).run st.before).result

/-- The fields of the record that is read; none if the reading fails. -/
def fields (st : Step ρ) : List Field :=
  match st.reading with
  | .ok d => d.fields
  | .error _ => []

theorem reading_of_outcome {st : Step ρ} {d : RecordDef} (h : st.outcome.result = .ok (.record d)) :
    st.reading = .ok d :=
  (Call.run_action st.call st.before).2.2 d h

theorem after_eq (st : Step ρ) : st.after = ((readFrom st.call.source).run st.before).state :=
  (Call.run_action st.call st.before).1

theorem asked_eq (st : Step ρ) : st.asked = askedTypes ((readFrom st.call.source).run st.before).events :=
  (Call.run_action st.call st.before).2.1

theorem asks (st : Step ρ) :
    ∃ c₁, Asks st.before st.asked c₁ ∧ st.after = c₁.concluded st.reading := by
  rw [st.asked_eq, st.after_eq]
  exact asks_readFrom st.before st.call.source

end Step

/-- The calls of a run, one after the other, whether they fail or not. -/
def steps : List Call → Conversion ρ → List (Step ρ)
  | [], _ => []
  | call :: rest, c => ⟨call, c⟩ :: steps rest (Step.mk call c).after

/-- What every call keeps holds in front of every step of a run. -/
theorem steps_invariant {P : Conversion ρ → Prop} (hP : ∀ st : Step ρ, P st.before → P st.after)
    {calls : List Call} (hc : P c) : ∀ st ∈ steps calls c, P st.before := by
  induction calls generalizing c with
  | nil => intro st hst; cases hst
  | cons call rest ih =>
    intro st hst
    rcases List.mem_cons.mp hst with rfl | hst
    · exact hc
    · exact ih (hP ⟨call, c⟩ hc) st hst

theorem exists_steps_of_append {calls : List Call} {pre post : List (Step ρ)} {st : Step ρ}
    (h : steps calls c = pre ++ st :: post) : ∃ later, post = steps later st.after := by
  induction calls generalizing c pre with
  | nil => simp [steps] at h
  | cons call rest ih =>
    cases pre with
    | nil =>
      obtain ⟨rfl, rfl⟩ := List.cons.inj h
      exact ⟨rest, rfl⟩
    | cons first pre => exact ih (List.cons.inj h).2

/-! ### What is known stays known -/

variable {n : Nat}

theorem Step.find?_after {st : Step ρ} (h : st.before.catalog.find? typeName = some n) :
    st.after.catalog.find? typeName = some n := by
  obtain ⟨c₁, ha, hs⟩ := st.asks
  rw [hs]
  exact find?_concluded_of_some (ha.find?_of_some h) _

theorem Step.not_asked_of_known {st : Step ρ} (h : st.before.catalog.find? typeName = some n) (hn : 0 < n) :
    typeName ∉ st.asked := by
  intro ht
  obtain ⟨c₁, ha, -⟩ := st.asks
  exact not_unknown_of_find? h hn (ha.unknown_of_mem ht)

theorem not_asked_of_known {calls : List Call} (h : c.catalog.find? typeName = some n) (hn : 0 < n) :
    typeName ∉ (steps calls c).flatMap Step.asked := by
  intro ht
  obtain ⟨st, hst, ht⟩ := List.mem_flatMap.mp ht
  have hb := steps_invariant (P := fun c => c.catalog.find? typeName = some n) (fun st h => st.find?_after h)
    h st hst
  exact st.not_asked_of_known hb hn ht

/-! ### Moments of a reading -/

/-- The conversion after the questions `ts`, with the answers on record. -/
def afterQuestions (c : Conversion ρ) (ts : List String) : Conversion ρ := ts.foldl afterAsking c

namespace Asks

variable {pre post : List String}

theorem eq_afterQuestions (h : Asks c ts c') : c' = c.afterQuestions ts := by
  induction h with
  | nil => rfl
  | cons _ _ ih => exact ih

theorem split (h : Asks c (pre ++ typeName :: post) c') :
    ∃ c₁, Asks c pre c₁ ∧ c₁.Unknown typeName ∧ Asks (c₁.afterAsking typeName) post c' := by
  induction pre generalizing c with
  | nil =>
    cases h with
    | cons hu h => exact ⟨c, .nil c, hu, h⟩
  | cons first pre ih =>
    cases h with
    | cons hu h =>
      obtain ⟨c₁, ha, hu', h'⟩ := ih h
      exact ⟨c₁, .cons hu ha, hu', h'⟩

theorem positive (h : Asks c ts c') (hc : c.catalog.Positive) : c'.catalog.Positive := by
  induction h with
  | nil => exact hc
  | @cons c c' t ts _ _ ih =>
    refine ih ?_
    by_cases hr : ∃ answer, c.reply t = .ok (some answer)
    · obtain ⟨answer, hr⟩ := hr
      rw [catalog_afterAsking hr]
      exact hc.recorded _ _
    · rw [catalog_afterAsking_of_no_answer (not_exists.mp hr)]
      exact hc

end Asks

omit [SizeSource ρ] in
theorem Unknown.find?_eq_none (h : c.Unknown typeName) (hc : c.catalog.Positive) :
    c.catalog.find? typeName = none := by
  cases hf : c.catalog.find? typeName with
  | none => rfl
  | some n => exact absurd h (not_unknown_of_find? hf (Nat.pos_of_ne_zero fun h0 => hc typeName (h0 ▸ hf)))

theorem Step.positive_after {st : Step ρ} (h : st.before.catalog.Positive) : st.after.catalog.Positive := by
  obtain ⟨c₁, ha, hs⟩ := st.asks
  rw [hs]
  cases st.reading with
  | error e => exact ha.positive h
  | ok d => exact (ha.positive h).recorded _ _

/-! ### An answer is final -/

theorem Step.unknown_when_asked {st : Step ρ} {pre post : List String} (h : st.before.catalog.Positive)
    (hs : st.asked = pre ++ typeName :: post) :
    primitiveSize? typeName = none ∧ (st.before.afterQuestions pre).catalog.find? typeName = none := by
  obtain ⟨c₁, ha, -⟩ := st.asks
  rw [hs] at ha
  obtain ⟨c₂, hpre, hu, -⟩ := ha.split
  rw [← hpre.eq_afterQuestions]
  exact ⟨hu.1, hu.find?_eq_none (hpre.positive h)⟩

theorem Step.sizes_after (st : Step ρ) : st.after.sizes = SizeSource.afterAll st.before.sizes st.asked := by
  obtain ⟨c₁, ha, hs⟩ := st.asks
  rw [hs, sizes_concluded, ha.sizes]

/-- A question that is answered leaves an entry behind, which is still there when the call is over. -/
theorem Step.known_of_answer {st : Step ρ} {pre post : List String} {answer : Answer}
    (h : st.before.catalog.Positive) (hs : st.asked = pre ++ typeName :: post)
    (hr : ((SizeSource.ask typeName).run (SizeSource.afterAll st.before.sizes pre)).result = .ok (some answer)) :
    typeName ∉ post ∧ st.after.catalog.find? typeName = some answer.size := by
  obtain ⟨c₁, ha, hc⟩ := st.asks
  rw [hs] at ha
  obtain ⟨c₂, hpre, hu, hpost⟩ := ha.split
  rw [← hpre.sizes] at hr
  have hf := find?_afterAsking_self (show c₂.reply typeName = .ok (some answer) from hr)
    (hu.find?_eq_none (hpre.positive h))
  constructor
  · intro ht
    exact not_unknown_of_find? hf answer.size_pos (hpost.unknown_of_mem ht)
  · rw [hc]
    exact find?_concluded_of_some (hpost.find?_of_some hf) _

theorem not_asked_again {calls : List Call} {pre post : List String} {answer : Answer}
    (hc : c.catalog.Positive) (hs : (steps calls c).flatMap Step.asked = pre ++ typeName :: post)
    (hr : ((SizeSource.ask typeName).run (SizeSource.afterAll c.sizes pre)).result = .ok (some answer)) :
    typeName ∉ post := by
  induction calls generalizing c pre with
  | nil => simp [steps] at hs
  | cons call rest ih =>
    let st : Step ρ := ⟨call, c⟩
    have hs' : st.asked ++ (steps rest st.after).flatMap Step.asked = pre ++ typeName :: post := hs
    -- the question belongs to a later call, or to this one
    rcases List.append_eq_append_iff.mp hs' with ⟨pre', rfl, hrest⟩ | ⟨mid, hasked, hmid⟩
    · refine ih (st.positive_after hc) hrest ?_
      rw [st.sizes_after]
      rwa [SizeSource.afterAll, List.foldl_append] at hr
    · cases mid with
      | nil =>
        rw [List.append_nil] at hasked
        refine @ih st.after [] (st.positive_after hc) hmid.symm ?_
        rwa [st.sizes_after, hasked]
      | cons first mid =>
        rw [List.cons_append] at hmid
        obtain ⟨rfl, rfl⟩ := List.cons.inj hmid
        obtain ⟨hlater, hf⟩ := st.known_of_answer hc hasked hr
        rw [List.mem_append, not_or]
        exact ⟨hlater, not_asked_of_known hf answer.size_pos⟩

/-! ### One size for each type -/

/-- The size of the field is that of a built-in type or of a catalog. -/
def SizedIn (catalog : SizeCatalog) (f : Field) : Prop :=
  primitiveSize? f.typeName = some f.elementSize ∧ f.isClassName = false ∨
    primitiveSize? f.typeName = none ∧ catalog.find? f.typeName = some f.elementSize

/-- What is true of the fields that were read: their sizes can be found, and a type is marked as a class name
by one answer at most. -/
structure Accounted (catalog : SizeCatalog) (fields : List Field) : Prop where
  positive : catalog.Positive
  sized : ∀ f ∈ fields, SizedIn catalog f
  marked : ((fields.filter Field.isClassName).map Field.typeName).Nodup

namespace Accounted

variable {k k' : SizeCatalog} {fields : List Field} {f g : Field}

theorem of_find? (h : Accounted k fields) (hk : k'.Positive)
    (hf : ∀ name n, k.find? name = some n → k'.find? name = some n) : Accounted k' fields :=
  ⟨hk, fun f hf' => (h.sized f hf').imp_right fun hs => ⟨hs.1, hf _ _ hs.2⟩, h.marked⟩

theorem recorded (h : Accounted k fields) (name : String) (size : Nat) :
    Accounted (k.recorded name size) fields :=
  h.of_find? (h.positive.recorded _ _) fun _ _ => SizeCatalog.find?_recorded_of_some

theorem of_asks (h : Accounted c.catalog fields) (ha : Asks c ts c') : Accounted c'.catalog fields :=
  h.of_find? (ha.positive h.positive) fun _ _ => ha.find?_of_some

theorem snoc (h : Accounted k fields) (hf : SizedIn k f)
    (hm : f.isClassName = true → ∀ g ∈ fields, g.isClassName = true → g.typeName ≠ f.typeName) :
    Accounted k (fields ++ [f]) := by
  refine ⟨h.positive, ?_, ?_⟩
  · intro g hg
    rcases List.mem_append.mp hg with hg | hg
    · exact h.sized g hg
    · rw [List.mem_singleton.mp hg]; exact hf
  · cases hb : f.isClassName with
    | false => simpa [List.filter_append, hb] using h.marked
    | true =>
      rw [List.filter_append, List.filter_cons_of_pos hb, List.filter_nil, List.map_append, List.nodup_append]
      refine ⟨h.marked, List.nodup_singleton _, ?_⟩
      rintro t ht u hu rfl
      obtain ⟨g, hg, rfl⟩ := List.mem_map.mp ht
      rw [List.mem_filter] at hg
      exact hm hb g hg.1 hg.2 (List.mem_singleton.mp hu)

/-- A field that is read next is accounted for, too. -/
theorem sizedBy {s : Sizing} (h : Accounted c.catalog fields) (hs : SizedBy c f.typeName s c')
    (hsize : f.elementSize = s.size) (hmark : f.isClassName = s.isClassName) :
    Accounted c'.catalog (fields ++ [f]) := by
  cases hs with
  | builtIn hp =>
    refine h.snoc (.inl ⟨by rw [hp, hsize], hmark⟩) fun hb => ?_
    rw [hmark] at hb; cases hb
  | known hp hk =>
    refine h.snoc (.inr ⟨hp, ?_⟩) fun hb => ?_
    · rw [hsize]; exact (SizeCatalog.size?_eq_some_iff.mp hk).1
    · rw [hmark] at hb; cases hb
  | answered hu hr =>
    have hn := hu.find?_eq_none h.positive
    refine (h.of_asks (.single hu)).snoc (.inr ⟨hu.1, ?_⟩) fun _ g hg hb ht => ?_
    · rw [hsize]; exact find?_afterAsking_self hr hn
    · -- a field of this type was marked before, so that the type was known
      rcases h.sized g hg with ⟨-, hm⟩ | ⟨-, hk⟩
      · rw [hb] at hm; cases hm
      · rw [ht, hn] at hk; cases hk

theorem elementSize_eq (h : Accounted k fields) (hf : f ∈ fields) (hg : g ∈ fields)
    (ht : f.typeName = g.typeName) : f.elementSize = g.elementSize := by
  have hsf := h.sized f hf
  have hsg := h.sized g hg
  rw [SizedIn, ht] at hsf
  rcases hsf with ⟨hpf, -⟩ | ⟨hpf, hkf⟩ <;> rcases hsg with ⟨hpg, -⟩ | ⟨hpg, hkg⟩
  · exact Option.some.inj (hpf.symm.trans hpg)
  · rw [hpf] at hpg; cases hpg
  · rw [hpf] at hpg; cases hpg
  · exact Option.some.inj (hkf.symm.trans hkg)

end Accounted

section Accounted

variable {prior : List Field}

theorem Reached.Takes.accounted {s s' : Reached ρ} {line : NumberedLine} (h : s.Takes line s')
    (hs : Accounted s.conversion.catalog (prior ++ s.fields)) :
    Accounted s'.conversion.catalog (prior ++ s'.fields) := by
  cases h with
  | blank => exact hs
  | @field text f c es hl hr hf =>
    obtain ⟨m, t, d, -, hsized, -, -, rfl⟩ := exists_of_readField hr
    have hnext := hs.sizedBy (f := fieldOf m t d s.offset) hsized rfl rfl
    rwa [List.append_assoc] at hnext

theorem accounted_readFrom {source : Source} {d : RecordDef} (h : Accounted c.catalog prior)
    (hd : ((readFrom source).run c).result = .ok d) :
    Accounted ((readFrom source).run c).state.catalog (prior ++ d.fields) := by
  have hstart : Accounted (Reached.start c).conversion.catalog (prior ++ (Reached.start c).fields) := by
    show Accounted c.catalog (prior ++ [])
    rwa [List.append_nil]
  obtain ⟨s, hs, hf, hcat, -⟩ := readFrom_invariant
    (P := fun s => Accounted s.conversion.catalog (prior ++ s.fields)) (fun _ _ _ _ hs ht => ht.accounted hs)
    hstart hd
  rw [hcat, ← hf]
  exact hs.recorded _ _

theorem Step.accounted {st : Step ρ} (h : Accounted st.before.catalog prior) :
    Accounted st.after.catalog (prior ++ st.fields) := by
  obtain ⟨c₁, ha, hs⟩ := st.asks
  rw [Step.fields]
  cases hr : st.reading with
  | error e =>
    rw [hs, hr, List.append_nil]
    exact h.of_asks ha
  | ok d =>
    rw [st.after_eq]
    exact accounted_readFrom h hr

/-- The fields of all records that a run reads are accounted for in the end. -/
theorem accounted_steps {calls : List Call} (h : Accounted c.catalog prior) :
    ∃ k, Accounted k (prior ++ (steps calls c).flatMap Step.fields) := by
  induction calls generalizing c prior with
  | nil => exact ⟨c.catalog, by simpa [steps] using h⟩
  | cons call rest ih =>
    let st : Step ρ := ⟨call, c⟩
    obtain ⟨k, hk⟩ := ih (st.accounted h)
    exact ⟨k, by rwa [List.append_assoc] at hk⟩

end Accounted

/-- In a run from a catalog without zero sizes, a type has one size. The size source is asked for a type only
when it is not built in and has no entry at that moment, and never again once it has answered. All fields
of a type, in whatever records they are read, have the same element size, and at most one of them is marked as a
class name. -/
theorem one_size_per_type (c : Conversion ρ) (calls : List Call) (hz : ∀ e ∈ c.catalog.entries, e.2 ≠ 0) :
    let run := steps calls c
    (∀ st ∈ run, st.after = (st.before.afterQuestions st.asked).concluded st.reading ∧
      (∀ d, st.outcome.result = .ok (.record d) → st.reading = .ok d) ∧
      ∀ pre t post, st.asked = pre ++ t :: post →
        primitiveSize? t = none ∧ (st.before.afterQuestions pre).catalog.find? t = none) ∧
    (∀ pre t post answer, run.flatMap Step.asked = pre ++ t :: post →
      ((SizeSource.ask t).run (SizeSource.afterAll c.sizes pre)).result = .ok (some answer) → t ∉ post) ∧
    (∀ f ∈ run.flatMap Step.fields, ∀ g ∈ run.flatMap Step.fields,
      f.typeName = g.typeName → f.elementSize = g.elementSize) ∧
    (((run.flatMap Step.fields).filter Field.isClassName).map Field.typeName).Nodup := by
  intro run
  have hpos : c.catalog.Positive := SizeCatalog.positive_of_entries hz
  have hstart : Accounted c.catalog [] := ⟨hpos, by simp, by simp⟩
  obtain ⟨k, hk⟩ : ∃ k, Accounted k (run.flatMap Step.fields) := accounted_steps hstart
  refine ⟨fun st hst => ⟨?_, fun d hd => st.reading_of_outcome hd, fun pre t post hs => ?_⟩, ?_, ?_, hk.marked⟩
  · obtain ⟨c₁, ha, hs⟩ := st.asks
    rw [← ha.eq_afterQuestions, hs]
  · exact st.unknown_when_asked (steps_invariant (P := fun c => c.catalog.Positive)
      (fun st h => st.positive_after h) hpos st hst) hs
  · intro pre t post answer hs hr
    exact not_asked_again hpos hs hr
  · intro f hf g hg ht
    exact hk.elementSize_eq hf hg ht

/-- A type is answered for in a call that fails, and another one in a call whose record code cannot be
written: both are asked for once, and keep their sizes. -/
theorem one_size_per_type_interrupted :
    let c : Conversion Responder := ⟨"", .empty, .prompt ⟨.ofString "12\n-4\n", .ofLimit .never⟩⟩
    let calls : List Call := [.convertText "struct A\nBlob x;\nbroken\n\x7d;",
      .convert (.ofString "struct B\nBlob y;\nExt e;\n\x7d;") (.ofLimit (.full 3 .outputClosed)),
      .read (.ofString "struct C\nExt e;\nBlob z[2];\nB b;\n\x7d;")]
    (∀ e ∈ c.catalog.entries, e.2 ≠ 0) ∧ (steps calls c).flatMap Step.asked = ["Blob", "Ext"] ∧
    ∀ f ∈ (steps calls c).flatMap Step.fields, f.typeName = "Ext" → f.elementSize = 4 := by
  intro c calls
  have hz : ∀ e ∈ c.catalog.entries, e.2 ≠ 0 := by decide
  let g : Field := ⟨12, 4, none, "Ext", "Ext", "e", "", true, true⟩
  have hg : g ∈ (steps calls c).flatMap Step.fields := by
    simp only [calls, steps, Step.after_eq]
    decide +kernel
  have hasked : (steps calls c).flatMap Step.asked = ["Blob", "Ext"] := by
    simp only [calls, steps, List.flatMap_cons, List.flatMap_nil, Step.after_eq, Step.asked_eq]
    decide +kernel
  refine ⟨hz, hasked, fun f hf ht => ?_⟩
  exact (one_size_per_type c calls hz).2.2.1 f hf g hg ht

/-! ### Records as types -/

section Embedding

/-- The fields of a type have this size, as those of a record of which nothing else is said. -/
def UsesAs (typeName : String) (n : Nat) (fields : List Field) : Prop :=
  ∀ f ∈ fields, f.typeName = typeName → f.elementSize = n ∧ f.isRecord = true ∧ f.isClassName = false

theorem SizedBy.eq_of_known {s : Sizing} (h : SizedBy c typeName s c') (hp : primitiveSize? typeName = none)
    (hk : c.catalog.find? typeName = some n) (hn : 0 < n) : s = ⟨n, true, false⟩ := by
  cases h with
  | builtIn hb => rw [hp] at hb; cases hb
  | known _ hs =>
    obtain ⟨hs, -⟩ := SizeCatalog.size?_eq_some_iff.mp hs
    rw [Option.some.inj (hk.symm.trans hs)]
  | answered hu _ => exact absurd hu (not_unknown_of_find? hk hn)

theorem Reached.Takes.usesAs {s s' : Reached ρ} {line : NumberedLine} (h : s.Takes line s')
    (hp : primitiveSize? typeName = none) (hn : 0 < n)
    (hs : s.conversion.catalog.find? typeName = some n ∧ UsesAs typeName n s.fields) :
    s'.conversion.catalog.find? typeName = some n ∧ UsesAs typeName n s'.fields := by
  obtain ⟨es, -, hl⟩ := h.learns
  refine ⟨hl.asks.find?_of_some hs.1, ?_⟩
  cases h with
  | blank => exact hs.2
  | @field text f c es hl hr hf =>
    intro g hg ht
    rcases List.mem_append.mp hg with hg | hg
    · exact hs.2 g hg ht
    · obtain rfl := List.mem_singleton.mp hg
      obtain ⟨m, t, d, -, hsized, -, -, rfl⟩ := exists_of_readField hr
      rw [show m.typeName = typeName from ht] at hsized
      obtain rfl := hsized.eq_of_known hp hs.1 hn
      exact ⟨rfl, rfl, rfl⟩

theorem usesAs_readFrom {source : Source} {d : RecordDef} (hp : primitiveSize? typeName = none) (hn : 0 < n)
    (h : c.catalog.find? typeName = some n) (hd : ((readFrom source).run c).result = .ok d) :
    UsesAs typeName n d.fields := by
  obtain ⟨s, hs, hf, -, -⟩ := readFrom_invariant
    (P := fun s => s.conversion.catalog.find? typeName = some n ∧ UsesAs typeName n s.fields)
    (fun _ _ _ _ hs ht => ht.usesAs hp hn hs) ⟨h, fun f hf => by cases hf⟩ hd
  rw [← hf]
  exact hs.2

/-- A record that is read gets an entry of its size, if its name has none and was not asked for. -/
theorem Step.find?_after_reading {st : Step ρ} {d : RecordDef} (hd : st.reading = .ok d) (hs : 0 < d.size)
    (hn : st.before.catalog.find? d.name = none) (ha : d.name ∉ st.asked) :
    st.after.catalog.find? d.name = some d.size := by
  obtain ⟨c₁, hasks, hc⟩ := st.asks
  rw [hc, hd]
  exact SizeCatalog.find?_recorded_self (by rw [hasks.find?_of_not_mem ha, hn]) hs

/-- A record that was read can be used as a type with its own size. If a call of a run reads a record with
bytes, whose name is not that of a built-in type, had no entry and was not asked for, then later calls
never ask for the name, and in every record that they read the fields of this type have the size of the
record. -/
theorem record_embeds_with_its_size (c : Conversion ρ) (calls : List Call) (pre post : List (Step ρ))
    (st : Step ρ) (d : RecordDef) (hrun : steps calls c = pre ++ st :: post) (hd : st.reading = .ok d)
    (hs : 0 < d.size) (hp : primitiveSize? d.name = none) (hn : st.before.catalog.find? d.name = none)
    (ha : d.name ∉ st.asked) :
    ∀ st' ∈ post, d.name ∉ st'.asked ∧
      (∀ d', st'.outcome.result = .ok (.record d') → st'.reading = .ok d') ∧
      ∀ d', st'.reading = .ok d' → ∀ f ∈ d'.fields, f.typeName = d.name →
        f.elementSize = d.size ∧ f.isRecord = true ∧ f.isClassName = false := by
  intro st' hst'
  obtain ⟨later, rfl⟩ := exists_steps_of_append hrun
  have hknown : st'.before.catalog.find? d.name = some d.size :=
    steps_invariant (P := fun c => c.catalog.find? d.name = some d.size) (fun st h => st.find?_after h)
      (st.find?_after_reading hd hs hn ha) st' hst'
  exact ⟨st'.not_asked_of_known hknown hs, fun d' h => st'.reading_of_outcome h,
    fun d' hd' => usesAs_readFrom hp hs hknown hd'⟩

/-- A record is used after it was defined a second time and a call failed. -/
theorem record_embeds_redefined :
    let c : Conversion (String → Option Answer) := ⟨"", .empty, fun _ => none⟩
    let first : Call := .read (.ofString "struct In\nUInt32 n;\n\x7d;")
    let rest : List Call := [.convertText "struct In\nUInt8 b;\n\x7d;", .convertText "struct Bad\nNope x;\n\x7d;",
      .read (.ofString "struct Out\nIn a[2];\n\x7d;")]
    let later := steps rest (Step.mk first c).after
    later.flatMap Step.fields = [⟨0, 1, none, "UInt8", "u8", "b", "", false, false⟩,
      ⟨0, 4, some 2, "In", "In", "a", "", true, false⟩] ∧
    ∀ st ∈ later, ∀ d, st.reading = .ok d → ∀ f ∈ d.fields, f.typeName = "In" → f.elementSize = 4 := by
  intro c first rest later
  let d : RecordDef := ⟨"In", [⟨0, 4, none, "UInt32", "UInt32", "n", "", false, false⟩]⟩
  have hfields : later.flatMap Step.fields = [⟨0, 1, none, "UInt8", "u8", "b", "", false, false⟩,
      ⟨0, 4, some 2, "In", "In", "a", "", true, false⟩] := by
    simp only [later, rest, steps, Step.after_eq]
    decide +kernel
  have hd : (Step.mk first c).reading = .ok d := by decide +kernel
  have hasked : d.name ∉ (Step.mk first c).asked := by decide +kernel
  have hlater := record_embeds_with_its_size c (first :: rest) [] later ⟨first, c⟩ d rfl hd (by decide) (by decide) rfl
    hasked
  exact ⟨hfields, fun st hst d' hd' f hf ht => ((hlater st hst).2.2 d' hd' f hf ht).1⟩

end Embedding

end Conversion

end RecordLayout
