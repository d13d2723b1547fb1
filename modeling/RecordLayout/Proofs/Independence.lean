import RecordLayout.Proofs.Prospects

/-!
# Independent conversions

Two definitions of different records, of which neither uses the record of the other one, can be converted
in either order. A conversion changes no prospect but that of the record that it declares, so that it
cannot be noticed by a later one that does not use this record (`convertText_after`). The entries that both add are
answers, which a steady size source gives to both.
-/

namespace RecordLayout

namespace Conversion

variable {ρ : Type} [SizeSource ρ] {c c' : Conversion ρ} {ts : List String} {t : String} {n : Nat}
variable {answer : String → Except IoFault (Option Answer)} {source : Source}

/-! ### What a reading leaves behind -/

theorem Asks.modulePath (h : Asks c ts c') : c'.modulePath = c.modulePath := by
  induction h with
  | nil => rfl
  | cons _ _ ih => exact ih

theorem modulePath_readFrom (c : Conversion ρ) (source : Source) :
    ((readFrom source).run c).state.modulePath = c.modulePath := by
  obtain ⟨c₁, ha, hc⟩ := asks_readFrom c source
  rw [hc, ← ha.modulePath]
  cases ((readFrom source).run c).result <;> rfl

theorem steady_readFrom (hs : SizeSource.Steady c.sizes answer) (source : Source) :
    SizeSource.Steady ((readFrom source).run c).state.sizes answer := by
  obtain ⟨c₁, ha, hc⟩ := asks_readFrom c source
  rw [hc, sizes_concluded]
  exact ha.steady hs

theorem find?_readFrom_of_some (h : c.catalog.find? t = some n) :
    ((readFrom source).run c).state.catalog.find? t = some n := by
  obtain ⟨c₁, ha, hc⟩ := asks_readFrom c source
  rw [hc]
  exact find?_concluded_of_some (ha.find?_of_some h) _

theorem find?_readFrom_of_ne (h : declaredName source ≠ some t) :
    ∃ c₁, Asks c (askedTypes ((readFrom source).run c).events) c₁ ∧
      ((readFrom source).run c).state.catalog.find? t = c₁.catalog.find? t := by
  obtain ⟨c₁, ha, hc⟩ := asks_readFrom c source
  refine ⟨c₁, ha, ?_⟩
  rw [hc]
  cases hr : ((readFrom source).run c).result with
  | error e => rfl
  | ok d =>
    refine SizeCatalog.find?_recorded_of_ne fun ht => h ?_
    rw [declaredName_of_ok hr, ht]

/-- Reading a definition changes no prospect but that of its record. -/
theorem prospect_readFrom (hs : SizeSource.Steady c.sizes answer) (h : declaredName source ≠ some t) :
    ((readFrom source).run c).state.catalog.prospect answer t = c.catalog.prospect answer t := by
  obtain ⟨c₁, ha, hf⟩ := find?_readFrom_of_ne (c := c) h
  rw [SizeCatalog.prospect_congr hf, ha.prospect hs]

/-- A new entry, if it is not that of the record, is the answer for the type of a member. -/
theorem find?_readFrom_of_none (hs : SizeSource.Steady c.sizes answer) (h : declaredName source ≠ some t)
    (hn : c.catalog.find? t = none) :
    ((readFrom source).run c).state.catalog.find? t = none ∨
      t ∈ declaredTypes source ∧ ∃ a, answer t = .ok (some a) ∧
        ((readFrom source).run c).state.catalog.find? t = some a.size := by
  obtain ⟨c₁, ha, hf⟩ := find?_readFrom_of_ne (c := c) h
  rw [hf]
  by_cases ht : t ∈ askedTypes ((readFrom source).run c).events
  · exact (ha.find?_of_none hs hn).imp_right fun hnew => ⟨mem_declaredTypes_of_asked ht, hnew⟩
  · exact .inl (by rw [ha.find?_of_not_mem ht, hn])

/-! ### One conversion after another -/

theorem run_convertText (c : Conversion ρ) (text : String) :
    ((convertText text).run c).result =
        ((readFrom (.ofString text)).run c).result.map (Code.render c.modulePath) ∧
      ((convertText text).run c).state = ((readFrom (.ofString text)).run c).state := by
  have hpath := modulePath_readFrom c (.ofString text)
  match hr : (readFrom (.ofString text)).run c with
  | ⟨.error e, c', es⟩ =>
    rw [convertText, Action.run_bind_error hr]
    exact ⟨rfl, rfl⟩
  | ⟨.ok d, c', es⟩ =>
    rw [hr] at hpath
    rw [convertText, Action.run_bind_ok hr, Action.run_bind_ok (Action.run_state c'), Action.run_pure,
      render, hpath]
    exact ⟨rfl, rfl⟩

theorem map_render_unmarked (r : Except DefinitionError RecordDef) (path : String) :
    (r.map RecordDef.unmarked).map (Code.render path) = r.map (Code.render path) := by
  cases r with
  | error e => rfl
  | ok d => exact congrArg Except.ok (Code.render_unmarked path d)

/-- A conversion gives the same result after another one, if it does not use the record that was declared there,
and adds what it would have added before. -/
theorem convertText_after {a b : String} (hs : SizeSource.Steady c.sizes answer)
    (hab : ∀ n, declaredName (.ofString a) = some n → n ∉ declaredTypes (.ofString b)) :
    let k := ((convertText a).run c).state
    ((convertText b).run k).result = ((convertText b).run c).result ∧
      ∀ t, ((convertText b).run k).state.catalog.find? t =
        (k.catalog.find? t).or (((convertText b).run c).state.catalog.find? t) := by
  rw [(run_convertText c a).2]
  intro k
  -- wherever the first conversion has left no entry, there was none before
  have hentry : ∀ u, k.catalog.find? u = none → k.catalog.find? u = c.catalog.find? u := by
    intro u hu
    cases hf : c.catalog.find? u with
    | none => exact hu
    | some n => rw [find?_readFrom_of_some hf] at hu; cases hu
  obtain ⟨hresult, hnew⟩ := alike_readFrom (steady_readFrom hs _) hs
    (fun t ht => prospect_readFrom hs fun hn => hab t hn ht) hentry
  constructor
  · rw [(run_convertText k b).1, (run_convertText c b).1, show k.modulePath = _ from modulePath_readFrom c _,
      ← map_render_unmarked, hresult, map_render_unmarked]
  · intro t
    rw [(run_convertText k b).2, (run_convertText c b).2]
    cases hk : k.catalog.find? t with
    | none => rw [Option.none_or, ← hnew t hk]
    | some n => rw [Option.some_or, find?_readFrom_of_some hk]

/-- Two readings that start from the same conversion add no different entries for a name. -/
theorem find?_readFrom_agree {source' : Source} (hs : SizeSource.Steady c.sizes answer)
    (hne : ∀ n, declaredName source = some n → declaredName source' ≠ some n)
    (hab : ∀ n, declaredName source = some n → n ∉ declaredTypes source')
    (hba : ∀ n, declaredName source' = some n → n ∉ declaredTypes source) {m : Nat}
    (hm : ((readFrom source).run c).state.catalog.find? t = some m)
    (hn : ((readFrom source').run c).state.catalog.find? t = some n) : m = n := by
  cases hf : c.catalog.find? t with
  | some k =>
    rw [find?_readFrom_of_some hf] at hm hn
    exact Option.some.inj (hm.symm.trans hn)
  | none =>
    by_cases ht : declaredName source = some t
    · rcases find?_readFrom_of_none hs (hne t ht) hf with h | ⟨hmem, -⟩
      · rw [hn] at h; cases h
      · exact absurd hmem (hab t ht)
    by_cases ht' : declaredName source' = some t
    · rcases find?_readFrom_of_none hs ht hf with h | ⟨hmem, -⟩
      · rw [hm] at h; cases h
      · exact absurd hmem (hba t ht')
    rcases find?_readFrom_of_none hs ht hf with h | ⟨-, a, ha, h⟩
    · rw [hm] at h; cases h
    rcases find?_readFrom_of_none hs ht' hf with h' | ⟨-, a', ha', h'⟩
    · rw [hn] at h'; cases h'
    rw [ha] at ha'
    obtain rfl : a = a' := by simpa using ha'
    exact Option.some.inj (hm.symm.trans (h.trans (h'.symm.trans hn)))

/-- Two definitions of different records, of which neither has the record of the other one as the type of a
member, can be converted in either order, whether they succeed or fail, if the size source is steady:
each gives the same result, and the sizes that are known in the end are the same. -/
theorem independent_conversions_commute (c : Conversion ρ) (answer : String → Except IoFault (Option Answer))
    (hs : SizeSource.Steady c.sizes answer) (a b : String)
    (hne : ∀ n, declaredName (.ofString a) = some n → declaredName (.ofString b) ≠ some n)
    (hab : ∀ n, declaredName (.ofString a) = some n → n ∉ declaredTypes (.ofString b))
    (hba : ∀ n, declaredName (.ofString b) = some n → n ∉ declaredTypes (.ofString a)) :
    let first := (convertText a).run c
    let second := (convertText b).run first.state
    let first' := (convertText b).run c
    let second' := (convertText a).run first'.state
    second'.result = first.result ∧ second.result = first'.result ∧
      ∀ name, second.state.catalog.size? name = second'.state.catalog.size? name := by
  intro first second first' second'
  obtain ⟨hb, hafter⟩ := convertText_after hs hab
  obtain ⟨ha, hafter'⟩ := convertText_after hs hba
  refine ⟨ha, hb, fun name => ?_⟩
  rw [SizeCatalog.size?, SizeCatalog.size?, hafter, hafter']
  cases hk : first.state.catalog.find? name with
  | none => rw [Option.none_or, Option.or_none]
  | some m =>
    cases hk' : first'.state.catalog.find? name with
    | none => rfl
    | some n =>
      rw [show first.state = _ from (run_convertText c a).2] at hk
      rw [show first'.state = _ from (run_convertText c b).2] at hk'
      rw [find?_readFrom_agree hs hne hab hba hk hk']

/-- Both conversions need the answer for a type, one of them fails behind it, and another type has an entry of
size zero, for which the table is asked whenever it is needed. -/
theorem independent_conversions_commute_failing :
    let c : Conversion Responder := ⟨"app", .ofEntries [("Old", 0)], .table [("Blob", -12), ("Old", 3)] [] .silent⟩
    let a := "struct A\nBlob x;\nOld o;\n\x7d;"
    let b := "struct B\nOld o;\nBlob y[2];\nNope n;\n\x7d;"
    declaredName (.ofString a) = some "A" ∧ declaredName (.ofString b) = some "B" ∧
    ((convertText b).run c).result = .error (.unresolvableType "Nope" 4) ∧
    ((convertText b).run ((convertText a).run c).state).result = .error (.unresolvableType "Nope" 4) ∧
    ((convertText a).run ((convertText b).run c).state).result = ((convertText a).run c).result ∧
    ∀ name, ((convertText b).run ((convertText a).run c).state).state.catalog.size? name =
      ((convertText a).run ((convertText b).run c).state).state.catalog.size? name := by
  intro c a b
  have ha : declaredName (.ofString a) = some "A" := by decide +kernel
  have hb : declaredName (.ofString b) = some "B" := by decide +kernel
  have hfail : ((convertText b).run c).result = .error (.unresolvableType "Nope" 4) := by decide +kernel
  have hne : ∀ n, declaredName (.ofString a) = some n → declaredName (.ofString b) ≠ some n := by
    intro n hn
    rw [ha] at hn
    rw [hb, ← hn]
    decide
  have hab : ∀ n, declaredName (.ofString a) = some n → n ∉ declaredTypes (.ofString b) := by
    intro n hn
    rw [ha] at hn
    obtain rfl := Option.some.inj hn
    decide +kernel
  have hba : ∀ n, declaredName (.ofString b) = some n → n ∉ declaredTypes (.ofString a) := by
    intro n hn
    rw [hb] at hn
    obtain rfl := Option.some.inj hn
    decide +kernel
  obtain ⟨hfirst, hsecond, hsizes⟩ := independent_conversions_commute c _
    (Responder.steady_table Responder.steady_silent) a b hne hab hba
  exact ⟨ha, hb, hfail, hsecond.trans hfail, hfirst, hsizes⟩

end Conversion

end RecordLayout
