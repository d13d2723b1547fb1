import RecordLayout.Path
import RecordLayout.Stream.Source

/-!
# File trees

Files and directories by their place, the list of names that leads to them from the root. Paths are
followed part by part from the working directory, or from the root if they start with a slash.
-/

namespace RecordLayout

inductive Node where
  | file (content : Bytes)
  | directory
  deriving DecidableEq, Repr

abbrev Place := List String

/-- Slashes stand between names only. -/
def Place.IsPlain (place : Place) : Prop := ∀ name ∈ place, '/' ∉ name.toList

instance (place : Place) : Decidable place.IsPlain :=
  inferInstanceAs (Decidable (∀ name ∈ place, '/' ∉ name.toList))

/-- Each place stands once. -/
structure FileTree where
  nodes : List (Place × Node)
  workingDir : Place
  nodup : (nodes.map Prod.fst).Nodup
  plain : ∀ e ∈ nodes, e.1.IsPlain
  workingDir_plain : workingDir.IsPlain
  deriving DecidableEq, Repr

namespace FileTree

/-- The root alone. -/
def empty : FileTree :=
  ⟨[], [], List.nodup_nil, fun _ h => absurd h List.not_mem_nil, fun _ h => absurd h List.not_mem_nil⟩

def node? (t : FileTree) (place : Place) : Option Node :=
  if place.isEmpty then some .directory else t.nodes.lookup place

/-- Adds a node at a place that has none. -/
def add (t : FileTree) (place : Place) (n : Node) (hp : place.IsPlain) (h : t.nodes.lookup place = none) :
    FileTree where
  nodes := t.nodes ++ [(place, n)]
  workingDir := t.workingDir
  nodup := by
    rw [List.map_append, List.nodup_append]
    refine ⟨t.nodup, by simp, ?_⟩
    intro a ha b hb hab
    obtain rfl : b = place := by simpa using hb
    obtain ⟨e, he, rfl⟩ := List.mem_map.mp ha
    simpa [hab] using List.lookup_eq_none_iff.mp h e he
  plain := by
    intro e he
    rcases List.mem_append.mp he with he | he
    · exact t.plain e he
    · rwa [List.mem_singleton.mp he]
  workingDir_plain := t.workingDir_plain

/-- Changes what stands at a place. -/
def replace (t : FileTree) (place : Place) (n : Node) : FileTree where
  nodes := t.nodes.map fun e => if e.1 = place then (e.1, n) else e
  workingDir := t.workingDir
  nodup := by
    have same : (t.nodes.map fun e => if e.1 = place then (e.1, n) else e).map Prod.fst =
        t.nodes.map Prod.fst := by
      rw [List.map_map]
      refine List.map_congr_left fun e _ => ?_
      simp only [Function.comp_apply]
      split <;> rfl
    rw [same]
    exact t.nodup
  plain := by
    intro e he
    obtain ⟨e', he', rfl⟩ := List.mem_map.mp he
    have hplain := t.plain e' he'
    split <;> exact hplain
  workingDir_plain := t.workingDir_plain

/-- Puts a node at a place, new or not. No place has a slash inside a name. -/
def put (t : FileTree) (place : Place) (n : Node) : FileTree :=
  if hp : place.IsPlain then
    if h : t.nodes.lookup place = none then t.add place n hp h else t.replace place n
  else t

/-- The tree of the directories that lead to the working directory. -/
def ofWorkingDir (workingDir : Place) : FileTree :=
  if h : workingDir.IsPlain then
    (List.range workingDir.length).foldl (fun t i => t.put (workingDir.take (i + 1)) .directory)
      { empty with workingDir, workingDir_plain := h }
  else empty

/-- The most bytes of one name. -/
def maxName : Nat := 255

/-- The most bytes of a path. -/
def maxPath : Nat := 4095

/-- Follows names from a place. Every step starts in a directory. -/
def walk (t : FileTree) : Place → List String → Except IoFault Place
  | place, [] => .ok place
  | place, name :: names =>
    match t.node? place with
    | none => .error .notFound
    | some (.file _) => .error .notDirectory
    | some .directory =>
      if name = "" ∨ name = "." then walk t place names
      else if name = ".." then walk t place.dropLast names
      else if maxName < name.utf8ByteSize then .error .nameTooLong
      else if (t.node? (place ++ [name])).isNone then .error .notFound
      else walk t (place ++ [name]) names

/-- Where following a path begins. -/
def origin (t : FileTree) (path : String) : Except IoFault Place :=
  if path.toList.contains '\x00' then .error .nulInName
  else if path = "" then .error .notFound
  else if maxPath < path.utf8ByteSize then .error .nameTooLong
  else .ok (if Path.isAbsolute path then [] else t.workingDir)

/-- The place that a path leads to. -/
def locate (t : FileTree) (path : String) : Except IoFault Place := do
  walk t (← t.origin path) (Path.pieces path)

def find (t : FileTree) (path : String) : Except IoFault Node := do
  match t.node? (← t.locate path) with
  | some n => .ok n
  | none => .error .notFound

/-- Whether a path leads to a file. -/
def isFile (t : FileTree) (path : String) : Bool :=
  match t.find path with
  | .ok (.file _) => true
  | _ => false

def exists? (t : FileTree) (path : String) : Bool := (t.find path).isOk

/-- Opens a file for reading. A directory opens too, but reading it fails. -/
def openFile (t : FileTree) (path : String) : Except IoFault Source := do
  match ← t.find path with
  | .file content => .ok { bytes := content }
  | .directory => .ok { bytes := [], fault := some .isDirectory }

/-- All of a file as text. -/
def readText (t : FileTree) (path : String) : Except IoFault String := do
  let source ← t.openFile path
  match source.fault, source.bytes.toString? with
  | some fault, _ => .error fault
  | none, some text => .ok text
  | none, none => .error .invalidUtf8

/-- The names in a directory. -/
def list (t : FileTree) (path : String) : Except IoFault (List String) := do
  let place ← t.locate path
  match t.node? place with
  | some .directory =>
    .ok (t.nodes.filterMap fun (p, _) => if p.dropLast = place then p.getLast? else none)
  | some (.file _) => .error .notDirectory
  | none => .error .notFound

/-- The directory that names lead to. -/
def directory (t : FileTree) (start : Place) (names : List String) : Except IoFault Place := do
  let place ← walk t start names
  match t.node? place with
  | some .directory => .ok place
  | some (.file _) => .error .notDirectory
  | none => .error .notFound

/-- The place that a path gives to a file: its directory must be there, and the path must end in a
name. A slash at the end asks for a directory. -/
def target (t : FileTree) (path : String) : Except IoFault Place := do
  let start ← t.origin path
  match (Path.pieces path).reverse with
  | [] => .error .notFound
  | name :: dirs =>
    if name = "" then
      let _ ← t.directory start ((dirs.dropWhile (· = "")).drop 1).reverse
      .error .isDirectory
    else
      let dir ← t.directory start dirs.reverse
      if name = "." ∨ name = ".." then .error .isDirectory
      else if maxName < name.utf8ByteSize then .error .nameTooLong
      else .ok (dir ++ [name])

/-- Writes a whole file, new or not. A write that fails changes nothing. -/
def write (t : FileTree) (path : String) (content : Bytes) : Except IoFault FileTree := do
  let place ← t.target path
  match t.node? place with
  | some .directory => .error .isDirectory
  | _ => .ok (t.put place (.file content))

/-- The files that are new or have another content than before. -/
def changes (before after : FileTree) : List (Place × Bytes) :=
  after.nodes.filterMap fun (p, n) =>
    match n with
    | .file content => if before.node? p = some n then none else some (p, content)
    | .directory => none

end FileTree

end RecordLayout
