import Mathlib.Data.List.Induction
import RecordLayout.Proofs.CatalogGrowth
import RecordLayout.SizeCatalog.Json

/-!
# Use of a catalog

A catalog is loaded and recorded to, in any order. Recording refuses zero, but loading does not, and the two sides of a
catalog disagree about an entry of size zero: it has no size for a reader, and its name is taken for a writer. So
a size that is recorded can be looked up unless its name has a zero entry, and zero entries are those
of the object that was loaded last (`find?_after_eq_zero_iff`): recording neither makes nor mends one.
-/

namespace RecordLayout.SizeCatalog

/-- One use of a catalog that may change it. -/
inductive Use where
  | load (text : String)
  | record (name : String) (size : Nat)

/-- Loading replaces the catalog, unless the text is not one. -/
def Use.apply (c : SizeCatalog) : Use → SizeCatalog
  | .load text => (ofJson? text).getD c
  | .record name size => ((SizeCatalog.record name size : Action SizeCatalog Empty Bool).run c).state

/-- The catalog that uses, one after the other, make of the empty one. -/
def after (uses : List Use) : SizeCatalog := uses.foldl Use.apply .empty

/-- The entries of the object that was loaded last. -/
def loaded (uses : List Use) : List (String × Nat) :=
  uses.foldl (fun es u =>
    match u with
    | .load text => (Json.readObject text.toList).getD es
    | .record _ _ => es) []

variable {c : SizeCatalog} {name other : String} {size n : Nat}

/-! ### Entries of a loaded object -/

theorem lookup_map_set (es : List (String × Nat)) (name : String) (size : Nat) (other : String) :
    (es.map fun e => if e.1 = name then (e.1, size) else e).lookup other =
      if other = name then (es.lookup other).map fun _ => size else es.lookup other := by
  induction es with
  | nil => split <;> rfl
  | cons e es ih =>
    rw [List.map_cons, List.lookup_cons, List.lookup_cons, ih]
    by_cases he : e.1 = name <;> by_cases ho : other = e.1 <;> grind

theorem find?_put (c : SizeCatalog) (name : String) (size : Nat) (other : String) :
    (c.put name size).find? other = if other = name then some size else c.find? other := by
  unfold put
  split
  · next h => exact find?_add h
  · next h =>
    show (c.entries.map fun e => if e.1 = name then (e.1, size) else e).lookup other = _
    rw [lookup_map_set]
    by_cases hn : other = name
    · subst hn
      obtain ⟨n, hfound⟩ := Option.ne_none_iff_exists'.mp h
      rw [if_pos rfl, if_pos rfl, show c.entries.lookup other = some n from hfound, Option.map_some]
    · rw [if_neg hn, if_neg hn]
      rfl

theorem find?_ofEntries (es : List (String × Nat)) (name : String) :
    (ofEntries es).find? name = es.reverse.lookup name := by
  induction es using List.reverseRecOn with
  | nil => rfl
  | append_singleton es e ih =>
    rw [ofEntries, List.foldl_append, ← ofEntries, List.foldl_cons, List.foldl_nil, find?_put, ih,
      List.reverse_append, List.reverse_singleton, List.singleton_append, List.lookup_cons]
    by_cases h : name = e.1
    · rw [if_pos h, beq_iff_eq.mpr h]
    · rw [if_neg h, beq_false_of_ne h]

/-! ### Recording -/

theorem result_record {ε : Type} (hsize : 0 < size) :
    ((record name size : Action SizeCatalog ε Bool).run c).result = .ok (c.find? name).isNone := by
  simp only [record, if_neg (show ¬size = 0 by omega), Action.run_bind, Action.run_state]
  split
  · next known hk =>
    rw [hk]
    split <;> rfl
  · next hk =>
    show Except.ok true = _
    rw [hk]
    rfl

theorem state_record {ε : Type} :
    ((record name size : Action SizeCatalog ε Bool).run c).state = c.recorded name size := by
  obtain ⟨new, es, h, -⟩ := run_record (ε := ε) c name size
  rw [h]

theorem size?_eq_none_iff : c.size? name = none ↔ c.find? name = none ∨ c.find? name = some 0 := by
  rw [size?, Option.filter_eq_none_iff]
  cases c.find? name <;> simp

/-- A recorded size is missing only where zero has its place. -/
theorem size?_recorded_eq_none_iff (hsize : 0 < size) :
    (c.recorded name size).size? name = none ↔ c.find? name = some 0 := by
  rw [size?_eq_none_iff, find?_recorded_eq_zero_iff, or_iff_right]
  match h : c.find? name with
  | none => simp [find?_recorded_self h hsize]
  | some n => simp [find?_recorded_of_some h]

/-! ### Uses -/

theorem find?_after_eq_zero_iff (uses : List Use) (name : String) :
    (after uses).find? name = some 0 ↔ (loaded uses).reverse.lookup name = some 0 := by
  -- The last use decides, so that the induction adds uses at the end.
  induction uses using List.reverseRecOn with
  | nil => rfl
  | append_singleton uses u ih =>
    rw [after, loaded, List.foldl_append, List.foldl_append, ← after, ← loaded]
    match u with
    | .record name' size =>
      show (Use.apply (after uses) (.record name' size)).find? name = some 0 ↔
        (loaded uses).reverse.lookup name = some 0
      rw [Use.apply, state_record, find?_recorded_eq_zero_iff, ih]
    | .load text =>
      show ((ofJson? text).getD (after uses)).find? name = some 0 ↔
        ((Json.readObject text.toList).getD (loaded uses)).reverse.lookup name = some 0
      rw [ofJson?]
      match Json.readObject text.toList with
      | none => exact ih
      | some es => rw [Option.map_some, Option.getD_some, Option.getD_some, find?_ofEntries]

/-- When recording a size works. For a positive size there are two things to expect: the type has a positive size
afterwards, and the size is new if and only if the type had none. Both hold together if and only if the
object that was loaded last does not end with size zero for the name. Otherwise nothing is recorded, and the type
stays without a size. -/
theorem record_effective_iff {ε : Type} (uses : List Use) (name : String) {size : Nat} (hsize : 0 < size) :
    let c := after uses
    let o := (record name size : Action SizeCatalog ε Bool).run c
    ((∃ n, 0 < n ∧ o.state.size? name = some n) ∧ (o.result = .ok true ↔ c.size? name = none) ↔
        (loaded uses).reverse.lookup name ≠ some 0) ∧
      ((loaded uses).reverse.lookup name = some 0 →
        c.size? name = none ∧ o.result = .ok false ∧ o.state = c) := by
  intro c o
  have hresult : o.result = .ok (c.find? name).isNone := result_record hsize
  have hstate : o.state = c.recorded name size := state_record
  have hfound : (∃ n, 0 < n ∧ o.state.size? name = some n) ↔ c.find? name ≠ some 0 := by
    rw [Ne, ← size?_recorded_eq_none_iff hsize, ← hstate, ← Ne, Option.ne_none_iff_exists']
    exact exists_congr fun n => and_iff_right_of_imp fun hn => (size?_eq_some_iff.mp hn).2
  have hnew : (o.result = .ok true ↔ c.size? name = none) ↔ c.find? name ≠ some 0 := by
    rw [hresult, size?_eq_none_iff]
    cases c.find? name <;> simp
  have hloaded : c.find? name = some 0 ↔ _ := find?_after_eq_zero_iff uses name
  rw [hfound, hnew, and_self]
  refine ⟨not_congr hloaded, fun h => ?_⟩
  have hzero := hloaded.mpr h
  refine ⟨size?_eq_none_iff.mpr (.inr hzero), ?_, ?_⟩
  · rw [hresult, hzero]
    rfl
  · rw [hstate, recorded_of_some hzero]

/-- The last of two sizes in a loaded object counts, and neither a text that is no object nor what was recorded since
matters. -/
theorem record_effective_iff_repeated :
    let uses := [Use.load "\x7b\"A\": 3, \"B\": 0, \"A\": 0, \"B\": 3\x7d", .record "A" 4, .load "\x7b", .record "C" 5]
    let recording (name : String) := (record name 9 : Action SizeCatalog Empty Bool).run (after uses)
    ((loaded uses).reverse.lookup "A" = some 0 ∧ (recording "A").result = .ok false ∧
      (recording "A").state = after uses) ∧
    ((loaded uses).reverse.lookup "B" = some 3 ∧ ∃ n, 0 < n ∧ (recording "B").state.size? "B" = some n) ∧
    ((loaded uses).reverse.lookup "D" = none ∧
      ((recording "D").result = .ok true ↔ (after uses).size? "D" = none)) := by
  intro uses recording
  have hA : (loaded uses).reverse.lookup "A" = some 0 := by decide +kernel
  have hB : (loaded uses).reverse.lookup "B" = some 3 := by decide +kernel
  have hD : (loaded uses).reverse.lookup "D" = none := by decide +kernel
  have hsize : 0 < 9 := by decide
  exact ⟨⟨hA, ((record_effective_iff uses "A" hsize).2 hA).2⟩,
    ⟨hB, ((record_effective_iff uses "B" hsize).1.mpr (by rw [hB]; decide)).1⟩,
    ⟨hD, ((record_effective_iff uses "D" hsize).1.mpr (by rw [hD]; decide)).2⟩⟩

/-- A zero entry hides its name from a reader and keeps a writer from giving it a size. -/
theorem record_ineffective_zero :
    let c := after [.load "\x7b\"A\":0\x7d"]
    let o := (record "A" 4 : Action SizeCatalog Empty Bool).run c
    c.size? "A" = none ∧ o.result = .ok false ∧ o.state.size? "A" = none := by
  decide +kernel

end RecordLayout.SizeCatalog
