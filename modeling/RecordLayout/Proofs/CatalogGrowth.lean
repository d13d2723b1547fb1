import RecordLayout.Proofs.MemberList
import Mathlib.Data.List.Nodup

/-!
# How the catalog grows

Reading a definition only adds entries to the catalog. First come the answers of the size source, in the
order of the questions and without those about types that had an entry already (`Asks.entries`), then
the size of the record, if it was read to its end. A type that had no entry is asked for at most once,
because only the last question of a reading can stay without an answer.
-/

namespace RecordLayout

namespace SizeSource

variable {ρ : Type} [SizeSource ρ]

/-- The size source once it was asked for `ts`, one after the other. -/
def afterAll (s : ρ) (ts : List String) : ρ :=
  ts.foldl (fun s t => ((ask t).run s).state) s

/-- The answers to the questions `ts`, asked one after the other, with the types that they are about. -/
def answers (s : ρ) : List String → List (String × Answer)
  | [] => []
  | t :: ts =>
    let o := (ask t).run s
    match o.result with
    | .ok (some answer) => (t, answer) :: answers o.state ts
    | _ => answers o.state ts

theorem mem_of_mem_answers {s : ρ} {ts : List String} {a : String × Answer} (h : a ∈ answers s ts) :
    a.1 ∈ ts := by
  induction ts generalizing s with
  | nil => cases h
  | cons t ts ih =>
    simp only [answers] at h
    split at h
    · rcases List.mem_cons.mp h with rfl | h
      · exact List.mem_cons_self
      · exact List.mem_cons_of_mem _ (ih h)
    · exact List.mem_cons_of_mem _ (ih h)

end SizeSource

namespace SizeCatalog

variable {c c' : SizeCatalog} {name : String} {size n : Nat} {answer : Answer}
variable {answers : List (String × Answer)}

/-- The entries that answers add to a catalog: one for each type that has none. -/
def additions (c : SizeCatalog) (answers : List (String × Answer)) : List (String × Nat) :=
  (answers.filter fun a => (c.find? a.1).isNone).map fun a => (a.1, a.2.size)

theorem additions_cons_of_none (h : c.find? name = none) :
    c.additions ((name, answer) :: answers) = (name, answer.size) :: c.additions answers := by
  rw [additions, List.filter_cons_of_pos (by rw [h]; rfl), List.map_cons, additions]

theorem additions_cons_of_some (h : c.find? name = some n) :
    c.additions ((name, answer) :: answers) = c.additions answers := by
  rw [additions, List.filter_cons_of_neg (by rw [h]; exact Bool.false_ne_true), additions]

theorem additions_congr (h : ∀ a ∈ answers, c.find? a.1 = c'.find? a.1) :
    c.additions answers = c'.additions answers := by
  unfold additions
  rw [List.filter_congr fun a ha => by rw [h a ha]]

theorem recorded_of_some (h : c.find? name = some n) : c.recorded name size = c := by
  unfold recorded
  rw [dif_neg (by rw [h]; exact Option.some_ne_none n), ite_self]

theorem entries_recorded (c : SizeCatalog) (name : String) (size : Nat) :
    (c.recorded name size).entries =
      c.entries ++ if 0 < size ∧ name ∉ c.entries.map Prod.fst then [(name, size)] else [] := by
  unfold recorded
  split
  · next h => simp [h]
  · next h =>
    split
    · next hn => rw [if_pos ⟨by omega, find?_eq_none_iff.mp hn⟩]; rfl
    · next hn => rw [if_neg fun h => hn (find?_eq_none_iff.mpr h.2), List.append_nil]

end SizeCatalog

namespace Conversion

variable {ρ : Type} [SizeSource ρ] {c c' : Conversion ρ} {typeName : String} {ts : List String}
variable {answer : Answer}

theorem answers_cons (h : c.reply typeName = .ok (some answer)) :
    SizeSource.answers c.sizes (typeName :: ts) =
      (typeName, answer) :: SizeSource.answers (c.afterAsking typeName).sizes ts := by
  simp only [SizeSource.answers, show ((SizeSource.ask typeName).run c.sizes).result = _ from h]
  rfl

theorem answers_cons_of_no_answer (h : ∀ answer, c.reply typeName ≠ .ok (some answer)) :
    SizeSource.answers c.sizes (typeName :: ts) =
      SizeSource.answers (c.afterAsking typeName).sizes ts := by
  simp only [SizeSource.answers]
  split
  · next answer hr => exact absurd hr (h answer)
  · rfl

namespace Asks

theorem sizes (h : Asks c ts c') : c'.sizes = SizeSource.afterAll c.sizes ts := by
  induction h with
  | nil => rfl
  | cons _ _ ih => rw [ih]; rfl

theorem entries (h : Asks c ts c') :
    c'.catalog.entries = c.catalog.entries ++ c.catalog.additions (SizeSource.answers c.sizes ts) := by
  induction h with
  | nil => simp [SizeSource.answers, SizeCatalog.additions]
  | @cons c c' t ts hu h ih =>
    by_cases hr : ∃ answer, c.reply t = .ok (some answer)
    · obtain ⟨answer, hr⟩ := hr
      rw [ih, answers_cons hr, catalog_afterAsking hr]
      cases hf : c.catalog.find? t with
      | some n => rw [SizeCatalog.recorded_of_some hf, SizeCatalog.additions_cons_of_some hf]
      | none =>
        -- from here on the type is known, so that no later answer is about it
        have hlater : ∀ a ∈ SizeSource.answers (c.afterAsking t).sizes ts, a.1 ≠ t := by
          rintro ⟨u, a⟩ ha rfl
          have hu' := h.unknown_of_mem (SizeSource.mem_of_mem_answers ha)
          exact not_unknown_of_find? (find?_afterAsking_self hr hf) answer.size_pos hu'
        rw [SizeCatalog.additions_cons_of_none hf, SizeCatalog.entries_recorded,
          if_pos ⟨answer.size_pos, SizeCatalog.find?_eq_none_iff.mp hf⟩, List.append_assoc,
          List.singleton_append,
          SizeCatalog.additions_congr fun a ha => SizeCatalog.find?_recorded_of_ne (hlater a ha)]
    · rw [not_exists] at hr
      rw [ih, answers_cons_of_no_answer hr, catalog_afterAsking_of_no_answer hr]

end Asks

namespace Learns

theorem map_answers (h : Learns c ts c') : (SizeSource.answers c.sizes ts).map Prod.fst = ts := by
  induction h with
  | nil => rfl
  | cons hu hr _ ih => rw [answers_cons hr, List.map_cons, ih]

theorem not_mem_of_unknown (h : Learns c ts c') (hu : c'.Unknown typeName)
    (hn : c.catalog.find? typeName = none) : typeName ∉ ts := by
  induction h with
  | nil => exact List.not_mem_nil
  | @cons c c' first ts answer _ hr h ih =>
    have hne : typeName ≠ first := by
      rintro rfl
      have hf := h.asks.find?_of_some (find?_afterAsking_self hr hn)
      exact not_unknown_of_find? hf answer.size_pos hu
    rw [List.mem_cons, not_or]
    exact ⟨hne, ih hu (by rw [find?_afterAsking_of_ne hne, hn])⟩

theorem nodup_new (h : Learns c ts c') : (ts.filter fun t => (c.catalog.find? t).isNone).Nodup := by
  have hnew : ts.filter (fun t => (c.catalog.find? t).isNone) =
      (c.catalog.additions (SizeSource.answers c.sizes ts)).map Prod.fst := by
    calc ts.filter (fun t => (c.catalog.find? t).isNone)
      _ = ((SizeSource.answers c.sizes ts).map Prod.fst).filter fun t => (c.catalog.find? t).isNone := by
        rw [h.map_answers]
      _ = (c.catalog.additions (SizeSource.answers c.sizes ts)).map Prod.fst := by
        rw [List.filter_map, SizeCatalog.additions, List.map_map]
        rfl
  have hnodup := c'.catalog.nodup
  rw [h.asks.entries, List.map_append] at hnodup
  rw [hnew]
  exact (List.nodup_append.mp hnodup).2.1

/-- One more question, answered or not, is not about a new type that was asked for before. -/
theorem nodup_new_append {c₁ : Conversion ρ} {last : List String} (h : Learns c ts c₁)
    (h' : Asks c₁ last c') (hone : last.length ≤ 1) :
    ((ts ++ last).filter fun t => (c.catalog.find? t).isNone).Nodup := by
  rw [List.filter_append]
  cases h' with
  | nil => simpa using h.nodup_new
  | @cons _ _ t rest hu _ =>
    obtain rfl : rest = [] := by simpa using hone
    rw [List.nodup_append]
    refine ⟨h.nodup_new, (List.nodup_singleton t).filter _, ?_⟩
    rintro u hmem v hv rfl
    rw [List.mem_filter, Option.isNone_iff_eq_none] at hmem
    rw [List.mem_filter, List.mem_singleton] at hv
    obtain ⟨rfl, -⟩ := hv
    exact h.not_mem_of_unknown hu hmem.2 hmem.1

end Learns

/-- What the result of a reading makes of a conversion: the size of a record that was read is recorded. -/
def concluded {ρ : Type} (c : Conversion ρ) : Except DefinitionError RecordDef → Conversion ρ
  | .ok d => { c with catalog := c.catalog.recorded d.name d.size }
  | .error _ => c

omit [SizeSource ρ] in
theorem closed_eq_concluded (name : String) (o : Outcome (Reading ρ) DefinitionError (List Field)) :
    closed name o = o.state.conversion.concluded (o.result.map (RecordDef.mk name)) := by
  unfold closed
  cases o.result <;> rfl

/-- Reading a definition is a run of questions, of which only the last one can stay without an answer,
and then the record of its size. -/
theorem readFrom_learns (c : Conversion ρ) (source : Source) :
    ∃ ts c₁ last c₂, askedTypes ((readFrom source).run c).events = ts ++ last ∧ Learns c ts c₁ ∧
      Asks c₁ last c₂ ∧ last.length ≤ 1 ∧
      ((readFrom source).run c).state = c₂.concluded ((readFrom source).run c).result := by
  rcases readFrom_cases c source with ⟨e, he⟩ | ⟨header, rest, raw, name, es, -, -, -, hr, hq⟩
  · rw [he]
    exact ⟨[], c, [], c, rfl, .nil c, .nil c, Nat.zero_le 1, rfl⟩
  · obtain ⟨es', ts, c₁, last, he, hts, hl, ha, hone⟩ := Reached.learns_go (Reached.start c) rest
    rw [hr]
    refine ⟨ts, c₁, last, _, ?_, hl, ha, hone, closed_eq_concluded _ _⟩
    rw [← hts]
    exact hq.trans (congrArg askedTypes he)

theorem asks_readFrom (c : Conversion ρ) (source : Source) :
    ∃ c₁, Asks c (askedTypes ((readFrom source).run c).events) c₁ ∧
      ((readFrom source).run c).state = c₁.concluded ((readFrom source).run c).result := by
  obtain ⟨ts, c₁, last, c₂, hq, hl, ha, -, hs⟩ := readFrom_learns c source
  exact ⟨c₂, by rw [hq]; exact hl.asks.trans ha, hs⟩

/-- The entry of a record: none if it was not read to its end, has no bytes, or has a name that is among
the entries already. -/
def ownEntry (entries : List (String × Nat)) : Except DefinitionError RecordDef → List (String × Nat)
  | .ok d => if 0 < d.size ∧ d.name ∉ entries.map Prod.fst then [(d.name, d.size)] else []
  | .error _ => []

omit [SizeSource ρ] in
theorem entries_concluded (c : Conversion ρ) (r : Except DefinitionError RecordDef) :
    (c.concluded r).catalog.entries = c.catalog.entries ++ ownEntry c.catalog.entries r := by
  cases r with
  | error e => exact (List.append_nil _).symm
  | ok d => exact SizeCatalog.entries_recorded _ _ _

omit [SizeSource ρ] in
theorem sizes_concluded (c : Conversion ρ) (r : Except DefinitionError RecordDef) :
    (c.concluded r).sizes = c.sizes := by
  cases r <;> rfl

omit [SizeSource ρ] in
theorem find?_concluded_of_some {name : String} {n : Nat} (h : c.catalog.find? name = some n)
    (r : Except DefinitionError RecordDef) : (c.concluded r).catalog.find? name = some n := by
  cases r with
  | error e => exact h
  | ok d => exact SizeCatalog.find?_recorded_of_some h

/-- Reading a definition, whether it succeeds or fails, keeps all entries of the catalog in their order.
It adds an entry for each answer about a type without one, in the order in which these types were asked for,
each once, and then the entry of the record. The answers are those that the size source gives to the
questions of the reading, one after the other. -/
theorem catalog_grows_exactly (c : Conversion ρ) (source : Source) :
    let o := (readFrom source).run c
    let asked := askedTypes o.events
    let entries := c.catalog.entries ++ c.catalog.additions (SizeSource.answers c.sizes asked)
    o.state.catalog.entries = entries ++ ownEntry entries o.result ∧
    (asked.filter fun t => (c.catalog.find? t).isNone).Nodup ∧
    o.state.sizes = SizeSource.afterAll c.sizes asked := by
  intro o asked entries
  obtain ⟨ts, c₁, last, c₂, hq, hl, ha, hone, hs⟩ := readFrom_learns c source
  have hasked : asked = ts ++ last := hq
  have hasks : Asks c asked c₂ := by
    rw [hasked]
    exact hl.asks.trans ha
  have hstate : o.state = c₂.concluded o.result := hs
  refine ⟨?_, ?_, ?_⟩
  · rw [hstate, ← show _ = entries from hasks.entries]
    exact entries_concluded _ _
  · rw [hasked]
    exact hl.nodup_new_append ha hone
  · rw [hstate, sizes_concluded]
    exact hasks.sizes

end Conversion

end RecordLayout
