import RecordLayout.Action

/-!
# The catalog of known sizes

Sizes by type name, in the order in which they became known. Each name stands once, and what is
recorded for it first stays. An entry of size zero, which only a loaded catalog can hold, counts as
unknown but keeps its name taken.
-/

namespace RecordLayout

structure SizeCatalog where
  entries : List (String × Nat)
  nodup : (entries.map Prod.fst).Nodup
  deriving DecidableEq, Repr

namespace SizeCatalog

def empty : SizeCatalog := ⟨[], List.nodup_nil⟩

instance : Inhabited SizeCatalog := ⟨empty⟩

/-- The entry of a name, zero or not. -/
def find? (c : SizeCatalog) (name : String) : Option Nat := c.entries.lookup name

/-- The size that a type is known to have. -/
def size? (c : SizeCatalog) (name : String) : Option Nat := (c.find? name).filter (0 < ·)

theorem find?_eq_none_iff {c : SizeCatalog} {name : String} :
    c.find? name = none ↔ name ∉ c.entries.map Prod.fst := by
  simp only [find?, List.lookup_eq_none_iff, List.mem_map, not_exists, not_and]
  constructor
  · intro h e he hn; simpa [hn] using h e he
  · intro h e he; simpa using fun hn => h e he hn.symm

/-- Adds an entry for a name that has none. -/
def add (c : SizeCatalog) (name : String) (size : Nat) (h : c.find? name = none) : SizeCatalog where
  entries := c.entries ++ [(name, size)]
  nodup := by
    rw [List.map_append, List.nodup_append]
    refine ⟨c.nodup, by simp, ?_⟩
    intro a ha b hb hab
    simp only [List.map_cons, List.map_nil, List.mem_singleton] at hb
    exact find?_eq_none_iff.mp h (hb ▸ hab ▸ ha)

/-- Changes the entry of a name, or adds one. -/
def put (c : SizeCatalog) (name : String) (size : Nat) : SizeCatalog :=
  if h : c.find? name = none then c.add name size h
  else {
    entries := c.entries.map fun e => if e.1 = name then (e.1, size) else e
    nodup := by
      have same : (c.entries.map fun e => if e.1 = name then (e.1, size) else e).map Prod.fst =
          c.entries.map Prod.fst := by
        rw [List.map_map]
        refine List.map_congr_left fun e _ => ?_
        simp only [Function.comp_apply]
        split <;> rfl
      rw [same]
      exact c.nodup }

/-- The catalog of a list of entries: a repeated name keeps its first place and its last size. -/
def ofEntries (es : List (String × Nat)) : SizeCatalog :=
  es.foldl (fun c e => c.put e.1 e.2) empty

/-- Records the size of a type and tells whether it is new. -/
def record {ε : Type} (name : String) (size : Nat) : Action SizeCatalog ε Bool := do
  if size = 0 then
    .log .warn .catalog s!"refusing zero size for type `{name}`"
    return false
  let c ← .state
  match h : c.find? name with
  | some known =>
    if known ≠ size then
      .log .debug .catalog s!"type `{name}` already cached with size {known} (ignoring {size})"
    return false
  | none =>
    .log .debug .catalog s!"caching type `{name}` = {size} byte(s)"
    .update fun _ => c.add name size h
    return true

end SizeCatalog

end RecordLayout
