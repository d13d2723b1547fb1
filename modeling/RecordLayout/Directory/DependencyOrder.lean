import RecordLayout.Directory.DefinitionFile
import RecordLayout.Trace

/-!
# Dependency order

Files are put into an order in which a record comes before those that use it. The search goes through
the files as they stand and enters the files that a file depends on first. A file that is met again
before it is finished closes a cycle; it is reported and passed over.
-/

namespace RecordLayout.DependencyOrder

/-- The position of the last file that declares a record. -/
def declaring? (files : List DefinitionFile) (name : String) : Option Nat :=
  (files.zipIdx.reverse.find? fun (f, _) => f.recordName == some name).map Prod.snd

/-- The positions of the files that the file at `i` depends on. -/
def dependencies (files : List DefinitionFile) (i : Nat) : List Nat :=
  match files[i]? with
  | none => []
  | some f => (f.memberTypes.filterMap (declaring? files)).filter (· != i)

/-- How far a search has come. -/
structure Progress where
  /-- The finished files. -/
  order : List Nat
  /-- The files that closed a cycle. -/
  cycles : List Nat
  deriving DecidableEq, Repr

/-- Enters the file at `i`, where `idle` are the positions that are not being searched. -/
def visit (deps : Nat → List Nat) (idle : List Nat) (i : Nat) (p : Progress) : Progress :=
  if i ∈ p.order then p
  else if _h : i ∈ idle then
    let p := (deps i).foldl (fun p j => visit deps (idle.erase i) j p) p
    { p with order := p.order ++ [i] }
  else { p with cycles := p.cycles ++ [i] }
termination_by idle.length
decreasing_by
  rw [List.length_erase_of_mem _h]
  exact Nat.sub_lt (List.length_pos_of_mem _h) Nat.one_pos

/-- Searches all files. -/
def search (files : List DefinitionFile) : Progress :=
  let positions := List.range files.length
  positions.foldl (fun p i => visit (dependencies files) positions i p) ⟨[], []⟩

/-- The files in dependency order. -/
def arrange (files : List DefinitionFile) : List DefinitionFile :=
  (search files).order.filterMap (files[·]?)

def cycleMessage (f : DefinitionFile) : String :=
  s!"{f.path}: struct dependency cycle; converting in file-name order"

/-- A warning for each file that closed a cycle. -/
def warnings (files : List DefinitionFile) : List Event :=
  ((search files).cycles.filterMap (files[·]?)).map fun f =>
    .log ⟨.warn, .directory, cycleMessage f⟩

end RecordLayout.DependencyOrder
