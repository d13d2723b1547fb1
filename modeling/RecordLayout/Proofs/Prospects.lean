import RecordLayout.Proofs.CatalogGrowth
import RecordLayout.Proofs.MemberTypes
import RecordLayout.SizeSource.Responder

/-!
# What a reading depends on

The size source may answer for a type in the same way whatever it was asked before (`Steady`). Then
the size that a type has, or will have once it is asked for, does not change while a definition is read:
its prospect is the size in the catalog, or else the answer. Two readings of one definition whose members
have the same prospects end in the same way (`alike_readFrom`), except that a type may be marked as a class
name in one of them. Record code does not show these marks (`Code.render_unmarked`).
-/

namespace RecordLayout

/-! ### Marks -/

/-- The field without the remark that its type is named by a class. -/
def Field.unmarked (f : Field) : Field := { f with isClassName := false }

def RecordDef.unmarked (d : RecordDef) : RecordDef := { d with fields := d.fields.map Field.unmarked }

theorem Field.size_unmarked (f : Field) : f.unmarked.size = f.size := rfl

theorem Field.stop_unmarked (f : Field) : f.unmarked.stop = f.stop := rfl

theorem Field.identifier_unmarked (f : Field) : f.unmarked.identifier = f.identifier := rfl

theorem Field.totalSize_unmarked (fields : List Field) :
    totalSize (fields.map unmarked) = totalSize fields := by
  induction fields with
  | nil => rfl
  | cons f fields ih => rw [List.map_cons, totalSize_cons, totalSize_cons, ih, size_unmarked]

theorem RecordDef.size_unmarked (d : RecordDef) : d.unmarked.size = d.size := Field.totalSize_unmarked d.fields

namespace FieldTable

theorem width_unmarked (fields : List Field) (c : Column) :
    width (fields.map Field.unmarked) c = width fields c := by
  rw [width, List.foldl_map]
  rfl

theorem lines_unmarked (fields : List Field) : lines (fields.map Field.unmarked) = lines fields := by
  have hw : width (fields.map Field.unmarked) = width fields := funext (width_unmarked fields)
  have htitle : titleLine (fields.map Field.unmarked) = titleLine fields := by rw [titleLine, hw, titleLine]
  have hrule : rule (fields.map Field.unmarked) = rule fields := by rw [rule, totalWidth, hw, rule, totalWidth]
  have hfield : fieldLine (fields.map Field.unmarked) ∘ Field.unmarked = fieldLine fields := by
    funext f
    rw [Function.comp_apply, fieldLine, hw, fieldLine]
    rfl
  rw [lines, htitle, hrule, List.map_map, hfield, lines]

end FieldTable

namespace Code

theorem lines_unmarked (path : String) (d : RecordDef) : lines path d.unmarked = lines path d := by
  have himports : runtimeImports d.unmarked = runtimeImports d := by
    simp only [runtimeImports, RecordDef.unmarked, List.any_map]
    rfl
  have hnested : nestedTypes d.unmarked = nestedTypes d := by
    simp only [nestedTypes, RecordDef.unmarked, List.filter_map, List.map_map]
    rfl
  have hpreamble : preamble path d.unmarked = preamble path d := by
    simp only [preamble, importLine, himports, hnested]
    rfl
  have hcomment : layoutComment d.unmarked = layoutComment d := by
    simp only [layoutComment, RecordDef.unmarked, FieldTable.lines_unmarked]
  have hstruct : structLines d.unmarked = structLines d := by
    simp only [structLines, RecordDef.unmarked, List.map_map]
    rfl
  have hsize : sizeLines d.unmarked = sizeLines d := by
    simp only [sizeLines, RecordDef.size_unmarked]
    rfl
  have hdefault : defaultLines d.unmarked = defaultLines d := by
    simp only [defaultLines, RecordDef.unmarked, List.map_map]
    rfl
  have hrecord : recordLines d.unmarked = recordLines d := by
    simp only [recordLines, RecordDef.unmarked, List.flatMap_map, List.isEmpty_map]
    rfl
  simp only [lines, hpreamble, hcomment, hstruct, hsize, hdefault, hrecord]

theorem render_unmarked (path : String) (d : RecordDef) : render path d.unmarked = render path d := by
  rw [render, lines_unmarked, render]

end Code

/-! ### Steady size sources -/

section Steady

variable {ρ : Type} [SizeSource ρ] {s : ρ} {answer : String → Except IoFault (Option Answer)}

/-- The size source answers for a type in one way, whatever it was asked before. -/
def SizeSource.Steady (s : ρ) (answer : String → Except IoFault (Option Answer)) : Prop :=
  ∀ ts t, ((ask t).run (afterAll s ts)).result = answer t

theorem SizeSource.Steady.afterAll (h : Steady s answer) (ts : List String) :
    Steady (SizeSource.afterAll s ts) answer := by
  intro ts' t
  have ht := h (ts ++ ts') t
  rwa [SizeSource.afterAll, List.foldl_append] at ht

theorem SizeSource.steady_of_unchanged (h : ∀ t, ((ask t).run s).state = s) :
    Steady s fun t => ((ask t).run s).result := by
  intro ts t
  induction ts with
  | nil => rfl
  | cons first ts ih => rwa [SizeSource.afterAll, List.foldl_cons, h]

theorem SizeSource.steady_function (f : String → Option Answer) : Steady f fun t => .ok (f t) :=
  steady_of_unchanged fun _ => rfl

namespace Responder

theorem steady_silent : SizeSource.Steady silent fun _ => .ok none :=
  SizeSource.steady_of_unchanged fun _ => rfl

section Table

variable {answers : List (String × Int)} {queries : List String} {fallback : Responder} {t : String}

theorem run_table_of_some {n : Int} (h : lastAnswer? answers t = some n) :
    (SizeSource.ask t).run (table answers queries fallback) =
      ⟨.ok (Answer.ofInt? n), table answers (queries ++ [t]) fallback, []⟩ := by
  show ask t (table answers queries fallback) = _
  rw [ask, h]

theorem run_table_of_none (h : lastAnswer? answers t = none) :
    (SizeSource.ask t).run (table answers queries fallback) =
      let o := (SizeSource.ask t).run fallback
      ⟨o.result, table answers (queries ++ [t]) o.state, o.events⟩ := by
  show ask t (table answers queries fallback) = _
  rw [ask, h]
  rfl

theorem afterAll_table (answers : List (String × Int)) (queries : List String) (fallback : Responder)
    (ts : List String) :
    ∃ queries' us, SizeSource.afterAll (table answers queries fallback) ts =
      table answers queries' (SizeSource.afterAll fallback us) := by
  induction ts generalizing queries fallback with
  | nil => exact ⟨queries, [], rfl⟩
  | cons t ts ih =>
    rw [SizeSource.afterAll, List.foldl_cons]
    cases hl : lastAnswer? answers t with
    | some n =>
      rw [run_table_of_some hl]
      exact ih _ _
    | none =>
      rw [run_table_of_none hl]
      obtain ⟨queries', us, h⟩ := ih (queries ++ [t]) ((SizeSource.ask t).run fallback).state
      exact ⟨queries', t :: us, h⟩

/-- A table remembers what it was asked, but does not answer by it. -/
theorem steady_table (h : SizeSource.Steady fallback answer) :
    SizeSource.Steady (table answers queries fallback) fun t =>
      match lastAnswer? answers t with
      | some n => .ok (Answer.ofInt? n)
      | none => answer t := by
  intro ts t
  obtain ⟨queries', us, hafter⟩ := afterAll_table answers queries fallback ts
  rw [hafter]
  dsimp only
  cases hl : lastAnswer? answers t with
  | some n => rw [run_table_of_some hl]
  | none =>
    rw [run_table_of_none hl]
    exact h us t

end Table

end Responder

/-- The size that a type has, or that it will be given once it is asked for. -/
def SizeCatalog.prospect (k : SizeCatalog) (answer : String → Except IoFault (Option Answer))
    (t : String) : Except IoFault (Option Nat) :=
  match k.size? t with
  | some n => .ok (some n)
  | none => (answer t).map (Option.map Answer.size)

namespace SizeCatalog

variable {k : SizeCatalog} {name t : String} {a : Answer}

theorem prospect_congr {k' : SizeCatalog} (h : k.find? t = k'.find? t) :
    k.prospect answer t = k'.prospect answer t := by
  rw [prospect, prospect, size?, size?, h]

theorem prospect_recorded_of_ne {n : Nat} (h : t ≠ name) :
    (k.recorded name n).prospect answer t = k.prospect answer t :=
  prospect_congr (find?_recorded_of_ne h)

theorem find?_recorded_congr {k' : SizeCatalog} {n : Nat} (h : k.find? t = k'.find? t) :
    (k.recorded name n).find? t = (k'.recorded name n).find? t := by
  by_cases ht : t = name
  · subst ht
    cases hf : k.find? t with
    | some m => rw [find?_recorded_of_some hf, find?_recorded_of_some (h ▸ hf)]
    | none =>
      rcases Nat.eq_zero_or_pos n with rfl | hn
      · rw [recorded, if_pos rfl, recorded, if_pos rfl, h]
      · rw [find?_recorded_self hf hn, find?_recorded_self (h ▸ hf) hn]
  · rw [find?_recorded_of_ne ht, find?_recorded_of_ne ht, h]

theorem prospect_recorded_answer (hk : k.size? name = none) (ha : answer name = .ok (some a)) :
    (k.recorded name a.size).prospect answer t = k.prospect answer t := by
  by_cases ht : t = name
  · subst ht
    cases hf : k.find? t with
    | some n => rw [recorded_of_some hf]
    | none =>
      have hs := size?_eq_some_iff.mpr ⟨find?_recorded_self hf a.size_pos, a.size_pos⟩
      simp only [prospect, hs, hk, ha]
      rfl
  · exact prospect_recorded_of_ne ht

end SizeCatalog

end Steady

namespace Conversion

variable {ρ σ : Type} [SizeSource ρ] [SizeSource σ] {answer answer' : String → Except IoFault (Option Answer)}

section Asking

variable {c c' : Conversion ρ} {ts : List String} {t name : String}

theorem reply_of_steady (hs : SizeSource.Steady c.sizes answer) (t : String) : c.reply t = answer t := hs [] t

theorem Asks.steady (h : Asks c ts c') (hs : SizeSource.Steady c.sizes answer) :
    SizeSource.Steady c'.sizes answer := by
  rw [h.sizes]
  exact hs.afterAll ts

theorem Asks.prospect (h : Asks c ts c') (hs : SizeSource.Steady c.sizes answer) (t : String) :
    c'.catalog.prospect answer t = c.catalog.prospect answer t := by
  induction h with
  | nil => rfl
  | @cons c c' first ts hu h ih =>
    rw [ih ((Asks.single hu).steady hs)]
    by_cases hr : ∃ a, c.reply first = .ok (some a)
    · obtain ⟨a, hr⟩ := hr
      rw [catalog_afterAsking hr]
      exact SizeCatalog.prospect_recorded_answer hu.2 (by rw [← reply_of_steady hs, hr])
    · rw [catalog_afterAsking_of_no_answer (not_exists.mp hr)]

/-- An entry that questions add is an answer. -/
theorem Asks.find?_of_none (h : Asks c ts c') (hs : SizeSource.Steady c.sizes answer)
    (hn : c.catalog.find? t = none) :
    c'.catalog.find? t = none ∨ ∃ a, answer t = .ok (some a) ∧ c'.catalog.find? t = some a.size := by
  induction h with
  | nil => exact .inl hn
  | @cons c c' first ts hu h ih =>
    have hs' := (Asks.single hu).steady hs
    by_cases ht : t = first
    · subst ht
      by_cases hr : ∃ a, c.reply t = .ok (some a)
      · obtain ⟨a, hr⟩ := hr
        exact .inr ⟨a, by rw [← reply_of_steady hs, hr], h.find?_of_some (find?_afterAsking_self hr hn)⟩
      · exact ih hs' (by rw [catalog_afterAsking_of_no_answer (not_exists.mp hr), hn])
    · exact ih hs' (by rw [find?_afterAsking_of_ne ht, hn])

end Asking

/-! ### Sizing by prospects -/

section Sizing

variable {c : Conversion ρ} {c' : Conversion σ} {t u text : String} {line offset : Nat}

def Sizing.unmarked (s : Sizing) : Sizing := { s with isClassName := false }

/-- The sizing of a type with a prospect, or how it fails. -/
def sizingBy (t : String) (line : Nat) (prospect : Except IoFault (Option Nat)) :
    Except DefinitionError Sizing :=
  match primitiveSize? t with
  | some n => .ok ⟨n, false, false⟩
  | none =>
    match prospect with
    | .ok (some n) => .ok ⟨n, true, false⟩
    | .ok none => .error (.unresolvableType t line)
    | .error fault => .error (.io fault)

theorem result_sizing (hs : SizeSource.Steady c.sizes answer) (t : String) (line : Nat) :
    ((sizing t line).run c).result.map Sizing.unmarked =
      sizingBy t line (c.catalog.prospect answer t) := by
  cases hp : primitiveSize? t with
  | some n =>
    rw [run_sizing_builtIn hp]
    simp only [sizingBy, hp]
    rfl
  | none =>
    cases hk : c.catalog.size? t with
    | some n =>
      rw [run_sizing_known hp hk]
      simp only [sizingBy, hp, SizeCatalog.prospect, hk]
      rfl
    | none =>
      obtain ⟨es, h, -⟩ := run_sizing_unknown line ⟨hp, hk⟩
      rw [h, reply_of_steady hs]
      simp only [sizingBy, hp, SizeCatalog.prospect, hk]
      match answer t with
      | .ok (some a) => rfl
      | .ok none => rfl
      | .error fault => rfl

/-- A type without an entry gets one if its prospect is a size. -/
theorem find?_sizing_self (hs : SizeSource.Steady c.sizes answer) (hp : primitiveSize? t = none)
    (hn : c.catalog.find? t = none) :
    ((sizing t line).run c).state.catalog.find? t = (c.catalog.prospect answer t).toOption.join := by
  have hk : c.catalog.size? t = none := by rw [SizeCatalog.size?, hn]; rfl
  obtain ⟨es, h, -⟩ := run_sizing_unknown line ⟨hp, hk⟩
  rw [h, SizeCatalog.prospect, hk]
  have hr := reply_of_steady hs t
  by_cases ha : ∃ a, answer t = .ok (some a)
  · obtain ⟨a, ha⟩ := ha
    rw [ha]
    exact find?_afterAsking_self (hr.trans ha) hn
  · rw [catalog_afterAsking_of_no_answer (by rw [hr]; exact not_exists.mp ha), hn]
    cases hans : answer t with
    | error fault => rfl
    | ok r =>
      cases r with
      | none => rfl
      | some a => exact absurd ⟨a, hans⟩ ha

theorem find?_sizing_of_ne (h : u ≠ t) :
    ((sizing t line).run c).state.catalog.find? u = c.catalog.find? u := by
  refine (asks_sizing c t line).find?_of_not_mem fun hu => ?_
  rcases asked_sizing c t line with hq | hq
  · rw [hq] at hu; cases hu
  · rw [hq, List.mem_singleton] at hu
    exact h hu

/-- Two conversions that see the same prospect for a type, and the same entry for some name, see the same entry
for it once they have sized the type. -/
theorem find?_sizing_congr (hs : SizeSource.Steady c.sizes answer) (hs' : SizeSource.Steady c'.sizes answer')
    (ht : c.catalog.prospect answer t = c'.catalog.prospect answer' t)
    (hu : c.catalog.find? u = c'.catalog.find? u) :
    ((sizing t line).run c).state.catalog.find? u = ((sizing t line).run c').state.catalog.find? u := by
  by_cases hut : u = t
  · subst hut
    cases hp : primitiveSize? u with
    | some n => rw [run_sizing_builtIn hp, run_sizing_builtIn hp, hu]
    | none =>
      cases hf : c.catalog.find? u with
      | some n =>
        rw [(asks_sizing c u line).find?_of_some hf, (asks_sizing c' u line).find?_of_some (hu ▸ hf)]
      | none => rw [find?_sizing_self hs hp hf, find?_sizing_self hs' hp (hu ▸ hf), ht]
  · rw [find?_sizing_of_ne hut, find?_sizing_of_ne hut, hu]

theorem place_unmarked (m : MemberLine) (line offset : Nat) (s : Sizing) :
    (place m line offset s).map Field.unmarked = place m line offset s.unmarked := by
  unfold place
  cases Declarator.parsed m.declarator line with
  | error e => rfl
  | ok d =>
    dsimp only
    rw [show s.unmarked.size = s.size from rfl]
    split <;> rfl

theorem result_readField (hs : SizeSource.Steady c.sizes answer) {m : MemberLine} (line offset : Nat)
    (hm : MemberLine.ofString? (trimmed text) = some m) :
    ((readField text line offset).run c).result.map Field.unmarked =
      (sizingBy m.typeName line (c.catalog.prospect answer m.typeName)).bind (place m line offset) := by
  obtain ⟨es, hr, -⟩ := run_readField c line offset hm
  rw [hr, ← result_sizing hs]
  cases ((sizing m.typeName line).run c).result with
  | error e => rfl
  | ok s => exact place_unmarked m line offset s

theorem readField_congr (hs : SizeSource.Steady c.sizes answer) (hs' : SizeSource.Steady c'.sizes answer')
    (ht : ∀ m, MemberLine.ofString? (trimmed text) = some m →
      c.catalog.prospect answer m.typeName = c'.catalog.prospect answer' m.typeName) :
    ((readField text line offset).run c).result.map Field.unmarked =
        ((readField text line offset).run c').result.map Field.unmarked ∧
      ∀ u, c.catalog.find? u = c'.catalog.find? u →
        ((readField text line offset).run c).state.catalog.find? u =
          ((readField text line offset).run c').state.catalog.find? u := by
  cases hm : MemberLine.ofString? (trimmed text) with
  | none =>
    rw [run_readField_malformed hm, run_readField_malformed hm]
    exact ⟨rfl, fun u hu => hu⟩
  | some m =>
    refine ⟨by rw [result_readField hs _ _ hm, result_readField hs' _ _ hm, ht m hm], fun u hu => ?_⟩
    obtain ⟨es, hr, -⟩ := run_readField c line offset hm
    obtain ⟨es', hr', -⟩ := run_readField c' line offset hm
    rw [hr, hr']
    exact find?_sizing_congr hs hs' (ht m hm) hu

end Sizing

/-! ### Two readings side by side -/

namespace Reached

variable {P : String → Prop} {s s₁ : Reached ρ} {s' : Reached σ} {line : NumberedLine}
variable {lines rest : List NumberedLine} {text : String}
variable {o : Outcome (Reading ρ) DefinitionError (List Field)}

/-- Two readings, each with a steady size source, have come to the same fields, but for marks, and to the
same entries for the names in `P`. -/
structure Alike (answer answer' : String → Except IoFault (Option Answer)) (P : String → Prop)
    (s : Reached ρ) (s' : Reached σ) : Prop where
  steady : SizeSource.Steady s.conversion.sizes answer
  steady' : SizeSource.Steady s'.conversion.sizes answer'
  fields : s.fields.map Field.unmarked = s'.fields.map Field.unmarked
  entry : ∀ u, P u → s.conversion.catalog.find? u = s'.conversion.catalog.find? u

/-- Two readings end in the same way, but for marks. -/
structure EndAlike (P : String → Prop) (o : Outcome (Reading ρ) DefinitionError (List Field))
    (o' : Outcome (Reading σ) DefinitionError (List Field)) : Prop where
  result : o.result.map (List.map Field.unmarked) = o'.result.map (List.map Field.unmarked)
  entry : ∀ u, P u → o.state.conversion.catalog.find? u = o'.state.conversion.catalog.find? u

namespace Alike

theorem offset (h : Alike answer answer' P s s') : s.offset = s'.offset := by
  rw [Reached.offset, ← Field.totalSize_unmarked, h.fields, Field.totalSize_unmarked, Reached.offset]

theorem fields_eq_nil_iff (h : Alike answer answer' P s s') : s.fields = [] ↔ s'.fields = [] := by
  rw [← List.map_eq_nil_iff, h.fields, List.map_eq_nil_iff]

section Line

variable (h : Alike answer answer' P s s')
variable (hp : ∀ t ∈ memberTypes (line :: rest),
  s.conversion.catalog.prospect answer t = s'.conversion.catalog.prospect answer' t)

include h hp

theorem readField (hl : line.Member text) :
    let o := (Conversion.readField text line.number s.offset).run s.conversion
    let o' := (Conversion.readField text line.number s'.offset).run s'.conversion
    o.result.map Field.unmarked = o'.result.map Field.unmarked ∧
      ∀ u, P u → o.state.catalog.find? u = o'.state.catalog.find? u := by
  rw [h.offset]
  obtain ⟨hr, he⟩ := readField_congr h.steady h.steady' fun m hm => hp _ (mem_memberTypes hl hm)
  exact ⟨hr, fun u hu => he u (h.entry u hu)⟩

theorem readField_ok (hl : line.Member text) {f : Field} {c : Conversion ρ} {es : List Event}
    (hr : (Conversion.readField text line.number s.offset).run s.conversion = ⟨.ok f, c, es⟩) :
    ∃ f' c' es', (Conversion.readField text line.number s'.offset).run s'.conversion = ⟨.ok f', c', es'⟩ ∧
      f.unmarked = f'.unmarked ∧ ∀ u, P u → c.catalog.find? u = c'.catalog.find? u := by
  obtain ⟨hresult, hentry⟩ := h.readField hp hl
  rw [hr] at hresult hentry
  match hr' : (Conversion.readField text line.number s'.offset).run s'.conversion with
  | ⟨.error e, c', es'⟩ => rw [hr'] at hresult; cases hresult
  | ⟨.ok f', c', es'⟩ =>
    rw [hr'] at hresult hentry
    exact ⟨f', c', es', rfl, Except.ok.inj hresult, hentry⟩

/-- A line that is taken in one of two readings is taken in the other one. -/
theorem takes (ht : s.Takes line s₁) : ∃ s₁', s'.Takes line s₁' ∧ Alike answer answer' P s₁ s₁' := by
  cases ht with
  | blank hl hb hf =>
    exact ⟨s'.next, .blank hl hb (mt h.fields_eq_nil_iff.mpr hf), h.steady, h.steady', h.fields, h.entry⟩
  | @field text f c es hl hr hf =>
    obtain ⟨f', c', es', hr', hfield, hentry⟩ := h.readField_ok hp hl hr
    have hstop : f'.stop ≤ maxSize := by
      rw [← Field.stop_unmarked, ← hfield]
      exact hf
    refine ⟨_, .field hl hr' hstop, ?_, ?_, ?_, hentry⟩
    · exact (learns_readField hr).asks.steady h.steady
    · exact (learns_readField hr').asks.steady h.steady'
    · rw [List.map_append, List.map_append, h.fields, List.map_singleton, List.map_singleton, hfield]

/-- A line that stops one of two readings stops the other one, for the same reason. -/
theorem stops (hst : s.Stops line o) : ∃ o', s'.Stops line o' ∧ EndAlike P o o' := by
  cases hst with
  | unreadable hl => exact ⟨_, .unreadable hl, rfl, h.entry⟩
  | ended hl he =>
    rw [h.fields_eq_nil_iff] at he
    exact ⟨_, .ended hl he, congrArg Except.ok h.fields, h.entry⟩
  | @refused text e c es hl hr =>
    obtain ⟨hresult, hentry⟩ := h.readField hp hl
    rw [hr] at hresult hentry
    match hr' : (Conversion.readField text line.number s'.offset).run s'.conversion with
    | ⟨.ok f', c', es'⟩ => rw [hr'] at hresult; cases hresult
    | ⟨.error e', c', es'⟩ =>
      rw [hr'] at hresult hentry
      obtain rfl : e = e' := Except.error.inj hresult
      exact ⟨_, .refused hl hr', rfl, hentry⟩
  | @tooLarge text f c es hl hr hf =>
    obtain ⟨f', c', es', hr', hfield, hentry⟩ := h.readField_ok hp hl hr
    have hstop : maxSize < f'.stop := by
      rw [← Field.stop_unmarked, ← hfield]
      exact hf
    refine ⟨_, .tooLarge hl hr' hstop, ?_, hentry⟩
    rw [← f.identifier_unmarked, hfield]
    rfl

end Line

/-- Two readings of the same lines, whose members have the same prospects, end alike. -/
theorem go (h : Alike answer answer' P s s')
    (hp : ∀ t ∈ memberTypes lines,
      s.conversion.catalog.prospect answer t = s'.conversion.catalog.prospect answer' t) :
    EndAlike P (s.go lines) (s'.go lines) := by
  induction lines generalizing s s' with
  | nil =>
    rw [go_nil, go_nil]
    exact ⟨congrArg Except.ok h.fields, h.entry⟩
  | cons line rest ih =>
    rcases takes_or_stops s line with ⟨s₁, ht⟩ | ⟨o, hst⟩
    · obtain ⟨s₁', ht', h₁⟩ := h.takes hp ht
      rw [go_of_takes ht, go_of_takes ht']
      refine ih h₁ fun t hmem => ?_
      obtain ⟨es, -, hl⟩ := ht.learns
      obtain ⟨es', -, hl'⟩ := ht'.learns
      rw [hl.asks.prospect h.steady, hl'.asks.prospect h.steady']
      exact hp t (ht.mem_memberTypes hmem)
    · obtain ⟨o', hst', ho⟩ := h.stops hp hst
      rw [go_of_stops hst, go_of_stops hst']
      exact ho

end Alike

end Reached

section ReadFrom

variable {P : String → Prop} {c : Conversion ρ} {c' : Conversion σ} {source : Source} {t : String}

/-- Two readings of a definition, whose members have the same prospects, give the same record, but for marks,
or the same error, and the same entries wherever these were the same before. -/
theorem alike_readFrom (hs : SizeSource.Steady c.sizes answer) (hs' : SizeSource.Steady c'.sizes answer')
    (hp : ∀ t ∈ declaredTypes source, c.catalog.prospect answer t = c'.catalog.prospect answer' t)
    (he : ∀ u, P u → c.catalog.find? u = c'.catalog.find? u) :
    let o := (readFrom source).run c
    let o' := (readFrom source).run c'
    o.result.map RecordDef.unmarked = o'.result.map RecordDef.unmarked ∧
      ∀ u, P u → o.state.catalog.find? u = o'.state.catalog.find? u := by
  rcases readFrom_form source with ⟨e, hr⟩ | ⟨header, rest, raw, name, hl, -, -, hr⟩
  · rw [hr c, hr c']
    exact ⟨rfl, he⟩
  · have hstart : Reached.Alike answer answer' P (Reached.start c) (Reached.start c') := ⟨hs, hs', rfl, he⟩
    have hend : Reached.EndAlike P ((Reached.start c).go rest) ((Reached.start c').go rest) := by
      by_cases hb : rest.head?.bind NumberedLine.content? = some ""
      · rw [Reached.go_start_of_blank hb, Reached.go_start_of_blank hb]
        exact ⟨rfl, he⟩
      · rw [declaredTypes_of_not_blank hl hb] at hp
        exact hstart.go hp
    obtain ⟨es, hr₁, -⟩ := hr c
    obtain ⟨es', hr₂, -⟩ := hr c'
    rw [hr₁, hr₂]
    obtain ⟨hresult, hentry⟩ := hend
    cases hg : ((Reached.start c).go rest).result with
    | error e =>
      cases hg' : ((Reached.start c').go rest).result with
      | ok fields' => rw [hg, hg'] at hresult; cases hresult
      | error e' =>
        rw [hg, hg'] at hresult
        obtain rfl : e = e' := Except.error.inj hresult
        rw [closed, closed, hg, hg']
        exact ⟨rfl, hentry⟩
    | ok fields =>
      cases hg' : ((Reached.start c').go rest).result with
      | error e' => rw [hg, hg'] at hresult; cases hresult
      | ok fields' =>
        rw [hg, hg'] at hresult
        have hd : RecordDef.unmarked ⟨name, fields⟩ = RecordDef.unmarked ⟨name, fields'⟩ :=
          congrArg (RecordDef.mk name) (Except.ok.inj hresult)
        have hsize : RecordDef.size ⟨name, fields⟩ = RecordDef.size ⟨name, fields'⟩ := by
          rw [← RecordDef.size_unmarked, hd, RecordDef.size_unmarked]
        rw [closed, closed, hg, hg']
        dsimp only
        rw [hsize]
        exact ⟨congrArg Except.ok hd, fun u hu => SizeCatalog.find?_recorded_congr (hentry u hu)⟩

end ReadFrom

end Conversion

end RecordLayout
