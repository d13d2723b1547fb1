import RecordLayout.CommandLine.Run
import RecordLayout.Proofs.Independence
import RecordLayout.Proofs.SavedCatalog

/-!
# A run on one definition

A run without a directory loads a catalog, reads a definition, writes its record code and saves the
catalog. Nothing is written before the definition was read to its end, and the first write that fails
ends the run. So a run has one of three ends (`Ends`): it has done nothing, only the catalog could not be
saved, or everything is in place.
-/

namespace RecordLayout.CommandLine

open Conversion FileTree

/-! ### What a run is about -/

namespace Options

/-- The catalog that a run starts with is that of its file, or empty if there is no such file. -/
def StartsFrom (o : Options) (t : FileTree) (k : SizeCatalog) : Prop :=
  match o.catalog with
  | none => k = .empty
  | some path => if t.exists? path then loadCatalog t path = .ok k else k = .empty

/-- The definition is read from the input file, or from the standard input. -/
def Reads (o : Options) (w : World) (source : Source) : Prop :=
  match file? o.input with
  | none => source = w.stdin
  | some path => w.files.openFile path = .ok source

/-- Sizes come from the command line. Only for a file as input, and unless this is switched off, the terminal
is asked for the others. -/
def sizeSource (o : Options) (stdin : Source) : Responder :=
  .table o.sizes []
    (if (file? o.input).isSome ∧ o.nonInteractive = false then .prompt ⟨stdin, .ofLimit .never⟩ else .silent)

/-- The record that a run reads, and the conversion that has read it. -/
def Converts (o : Options) (w : World) (d : RecordDef) (c : Conversion Responder) : Prop :=
  ∃ k source es, o.StartsFrom w.files k ∧ o.Reads w source ∧
    (readFrom source).run (.start o.modulePath k (o.sizeSource w.stdin)) = ⟨.ok d, c, es⟩

theorem Converts.modulePath {o : Options} {w : World} {d : RecordDef} {c : Conversion Responder}
    (h : o.Converts w d c) : c.modulePath = normalPath o.modulePath := by
  obtain ⟨k, source, es, -, -, hr⟩ := h
  have hpath := modulePath_readFrom (.start o.modulePath k (o.sizeSource w.stdin)) source
  rw [hr] at hpath
  dsimp only [start] at hpath
  exact hpath

end Options

/-- Record code goes to the output file, or to the standard output. -/
def Delivers (output : Option String) (code : Bytes) (w w' : World) : Prop :=
  match Options.file? output with
  | none => w' = { w with stdout := w.stdout ++ code }
  | some path => ∃ files, w.files.write path code = .ok files ∧ w' = { w with files }

def Saves (catalog : Option String) (k : SizeCatalog) (w w' : World) : Prop :=
  match catalog with
  | none => w' = w
  | some path => ∃ files, saveCatalog w.files path k = .ok files ∧ w' = { w with files }

/-- How a run ends, and what it leaves. -/
inductive Ends (o : Options) (w : World) : Except Failure Unit → World → Prop
  | failed {failure : Failure} (h : ∀ path e, failure ≠ .savingCatalog path e) : Ends o w (.error failure) w
  | unsaved {d : RecordDef} {c : Conversion Responder} {w' : World} {path : String} {e : CatalogError}
      (hr : o.Converts w d c) (hw : Delivers o.output (.ofString (c.render d)) w w')
      (hc : o.catalog = some path) (hs : saveCatalog w'.files path c.catalog = .error e) :
      Ends o w (.error (.savingCatalog path e)) w'
  | done {d : RecordDef} {c : Conversion Responder} {w' w'' : World} (hr : o.Converts w d c)
      (hw : Delivers o.output (.ofString (c.render d)) w w') (hs : Saves o.catalog c.catalog w' w'') :
      Ends o w (.ok ()) w''

/-! ### The parts of a run -/

namespace RunState

variable {o : Options} {w : World} {c : Conversion Responder}

end RunState

variable {o : Options} {w w' : World}

theorem Delivers.writes {output : Option String} {code : Bytes} (h : Delivers output code w w') :
    w.files.Writes ((Options.file? output).toList.map fun path => (path, code)) w'.files ∧
      w'.stdout = w.stdout ++ if Options.isStandard output then code else [] := by
  have hstd : Options.isStandard output = (Options.file? output).isNone := by
    unfold Options.file?
    cases output with
    | none => rfl
    | some path => split <;> simp_all
  rw [hstd]
  unfold Delivers at h
  cases hf : Options.file? output with
  | none =>
    rw [hf] at h
    subst h
    exact ⟨.nil _, rfl⟩
  | some path =>
    rw [hf] at h
    obtain ⟨files, hw, rfl⟩ := h
    exact ⟨writes_of_write hw, (List.append_nil _).symm⟩

theorem Saves.writes {catalog : Option String} {k : SizeCatalog} {t : FileTree} {written : List (String × Bytes)}
    (h : Saves catalog k w w') (hw : t.Writes written w.files)
    (hne : ∀ path, catalog = some path → ∀ e ∈ written, t.target e.1 ≠ t.target path) :
    t.Writes (written ++ catalog.toList.map fun path => (path, .ofString (k.toJson ++ "\n"))) w'.files ∧
      w'.stdout = w.stdout := by
  cases catalog with
  | none =>
    obtain rfl : w' = w := h
    exact ⟨by simpa using hw, rfl⟩
  | some path =>
    obtain ⟨files, hs, rfl⟩ := h
    exact ⟨hw.snoc (SizeCatalog.write_of_saveCatalog hs) (hne path rfl), rfl⟩

end RecordLayout.CommandLine
