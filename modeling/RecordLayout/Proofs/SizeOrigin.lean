import RecordLayout.Proofs.Repetition

/-!
# Where sizes come from

A size may be known from the start, or be asked for on the way. Record code shows no difference: if the
answers of a size source are the sizes that a catalog holds, then a text is converted in the same way with
either of them, or refused for the same reason. The reading that asks has learned, by its end, nothing but
entries of the catalog (`Asks.find?_of_gives`), so that the other one repeats it.
-/

namespace RecordLayout

section Gives

variable {ρ : Type} [SizeSource ρ] {f : String → Nat}

/-- The size source, asked for one type after the other, gives each the size that `f` gives it, with either
sign. -/
def SizeSource.Gives (f : String → Nat) : ρ → List String → Prop
  | _, [] => True
  | s, t :: ts =>
    (((ask t).run s).result = .ok (Answer.ofInt? (f t)) ∨ ((ask t).run s).result = .ok (Answer.ofInt? (-f t))) ∧
      Gives f ((ask t).run s).state ts

theorem Answer.exists_of_ne_zero {n : Int} (h : n ≠ 0) : ∃ a, Answer.ofInt? n = some a ∧ a.size = n.natAbs :=
  ⟨_, dif_neg h, rfl⟩

theorem SizeSource.Gives.exists_answer {s : ρ} {t : String} {ts : List String} (h : Gives f s (t :: ts))
    (hf : 0 < f t) : ∃ a, ((ask t).run s).result = .ok (some a) ∧ a.size = f t := by
  rcases h.1 with hr | hr
  · obtain ⟨a, ha, hsize⟩ := Answer.exists_of_ne_zero (n := f t) (by omega)
    exact ⟨a, by rw [hr, ha], by omega⟩
  · obtain ⟨a, ha, hsize⟩ := Answer.exists_of_ne_zero (n := -f t) (by omega)
    exact ⟨a, by rw [hr, ha], by omega⟩

end Gives

namespace Conversion

variable {ρ σ : Type} [SizeSource ρ] [SizeSource σ] {c c' : Conversion ρ} {ts : List String} {f : String → Nat}

theorem Asks.learns_of_gives (h : Asks c ts c') (hg : SizeSource.Gives f c.sizes ts) (hf : ∀ t ∈ ts, 0 < f t) :
    Learns c ts c' := by
  induction h with
  | nil => exact .nil _
  | cons hu _ ih =>
    rw [List.forall_mem_cons] at hf
    obtain ⟨a, hr, -⟩ := hg.exists_answer hf.1
    exact .cons hu hr (ih hg.2 hf.2)

/-- What is new in the catalog is what `f` gives the types that were asked for. -/
theorem Asks.find?_of_gives (h : Asks c ts c') (hg : SizeSource.Gives f c.sizes ts) (hf : ∀ t ∈ ts, 0 < f t)
    {t : String} {n : Nat} (hn : c'.catalog.find? t = some n) :
    c.catalog.find? t = some n ∨ t ∈ ts ∧ n = f t := by
  induction h with
  | nil => exact .inl hn
  | @cons c c' first ts hu _ ih =>
    rw [List.forall_mem_cons] at hf
    obtain ⟨a, hr, hsize⟩ := hg.exists_answer hf.1
    rcases ih hg.2 hf.2 hn with hn | ⟨ht, rfl⟩
    · rw [catalog_afterAsking hr] at hn
      rcases SizeCatalog.find?_of_recorded hn with hn | ⟨rfl, rfl⟩
      · exact .inl hn
      · exact .inr ⟨List.mem_cons_self, hsize⟩
    · exact .inr ⟨List.mem_cons_of_mem _ ht, rfl⟩

theorem events_convertText (c : Conversion ρ) (text : String) :
    ((convertText text).run c).events = ((readFrom (.ofString text)).run c).events := by
  match hr : (readFrom (.ofString text)).run c with
  | ⟨.error e, c', es⟩ => rw [convertText, Action.run_bind_error hr]
  | ⟨.ok d, c', es⟩ => rw [run_convertText_of_ok hr]

/-- Record code does not depend on where sizes come from. Let `f` give a size to each type of a member that is not
built in. A text is converted with an empty catalog and a size source that answers all of its questions by `f`,
with either sign, and with a catalog that holds what `f` gives: both give the same record code, or the same
error, and the second conversion asks for nothing. -/
theorem code_independent_of_size_origin (path text : String) (f : String → Nat) (told : ρ) (unasked : σ)
    (known : SizeCatalog)
    (hf : ∀ t ∈ declaredTypes (.ofString text), primitiveSize? t = none → 0 < f t)
    (hk : ∀ t ∈ declaredTypes (.ofString text), primitiveSize? t = none → known.find? t = some (f t))
    (hg : SizeSource.Gives f told (askedTypes ((convertText text).run (start path .empty told)).events)) :
    let o := (convertText text).run (start path known unasked)
    o.result = ((convertText text).run (start path .empty told)).result ∧ askedTypes o.events = [] := by
  intro o
  rw [events_convertText] at hg
  obtain ⟨c₁, ha, -⟩ := asks_readFrom (start path .empty told) (.ofString text)
  have hasked : ∀ t ∈ askedTypes ((readFrom (.ofString text)).run (start path .empty told)).events,
      t ∈ declaredTypes (.ofString text) ∧ primitiveSize? t = none :=
    fun t ht => ⟨mem_declaredTypes_of_asked ht, (ha.unknown_of_mem ht).1⟩
  have hpos := fun t ht => hf t (hasked t ht).1 (hasked t ht).2
  have hextends : c₁.catalog.Extends known := by
    intro t n hn
    rcases ha.find?_of_gives hg hpos hn with hn | ⟨ht, rfl⟩
    · cases hn
    · exact hk t (hasked t ht).1 (hasked t ht).2
  have hempty : (start path .empty told).catalog.Positive := SizeCatalog.positive_of_entries (by rintro e ⟨⟩)
  obtain ⟨es, hrun, hq⟩ :=
    readFrom_informed (k := start path known unasked) hempty (ha.learns_of_gives hg hpos) hextends
  constructor
  · show ((convertText text).run (start path known unasked)).result = _
    rw [(run_convertText _ text).1, (run_convertText _ text).1, hrun, map_render_unmarked]
    rfl
  · show askedTypes ((convertText text).run (start path known unasked)).events = []
    rw [events_convertText, hrun]
    exact hq

/-- One size is given with a minus, the other one is that of the record itself, and the person at the terminal needs
two attempts for it. The second text fails behind both questions. -/
theorem code_independent_of_size_origin_terminal :
    let told : Responder := .prompt ⟨.ofString "-12\nx\n40\n", .ofLimit .never⟩
    let known := SizeCatalog.ofEntries [("Node", 40), ("Blob", 12)]
    let text := "struct Node\nBlob x;\nNode next[2]; two\nBlob y;\n\x7d;"
    let broken := "struct Node\nBlob x;\nNode next[-2];\n\x7d;"
    askedTypes ((convertText text).run (start "a.b" .empty told)).events = ["Blob", "Node"] ∧
    ((convertText text).run (start "a.b" known Responder.silent)).result =
      ((convertText text).run (start "a.b" .empty told)).result ∧
    ((convertText broken).run (start "" .empty told)).result = .error (.invalidArraySize "next[-2];" 3) ∧
    ((convertText broken).run (start "" known Responder.silent)).result =
      .error (.invalidArraySize "next[-2];" 3) := by
  intro told known text broken
  let f : String → Nat := fun t => if t = "Blob" then 12 else 40
  have hasked : askedTypes ((convertText text).run (start "a.b" .empty told)).events = ["Blob", "Node"] := by
    decide +kernel
  have hasked' : askedTypes ((convertText broken).run (start "" .empty told)).events = ["Blob", "Node"] := by
    decide +kernel
  have hfails : ((convertText broken).run (start "" .empty told)).result =
      .error (.invalidArraySize "next[-2];" 3) := by decide +kernel
  have hgives : SizeSource.Gives f told ["Blob", "Node"] :=
    ⟨.inr (by decide +kernel), .inl (by decide +kernel), trivial⟩
  have hf : ∀ t, 0 < f t := fun t => by
    show 0 < if t = "Blob" then 12 else 40
    split <;> decide
  have htypes : declaredTypes (.ofString text) = ["Blob", "Node", "Blob"] := by decide +kernel
  have htypes' : declaredTypes (.ofString broken) = ["Blob", "Node"] := by decide +kernel
  have hk : ∀ t ∈ declaredTypes (.ofString text), primitiveSize? t = none → known.find? t = some (f t) := by
    rw [htypes]
    decide +kernel
  have hk' : ∀ t ∈ declaredTypes (.ofString broken), primitiveSize? t = none → known.find? t = some (f t) := by
    rw [htypes']
    decide +kernel
  have hsame := code_independent_of_size_origin "a.b" text f told Responder.silent known (fun t _ _ => hf t) hk
    (by rw [hasked]; exact hgives)
  have hsame' := code_independent_of_size_origin "" broken f told Responder.silent known (fun t _ _ => hf t) hk'
    (by rw [hasked']; exact hgives)
  exact ⟨hasked, hsame.1, hfails, hsame'.1.trans hfails⟩

end Conversion

end RecordLayout
