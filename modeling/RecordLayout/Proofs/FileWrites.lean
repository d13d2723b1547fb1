import RecordLayout.Proofs.FilePlaces

/-!
# Files that were written

Writing a file makes no directory and removes none, so a path gives a file to the same place before and
after other files were written (`SameDirectories.target`). `Writes t written t'` says all that writing
several files has done to a tree; each of them can then be read under its path (`Writes.openFile`).
-/

namespace RecordLayout.FileTree

variable {t t' t'' : FileTree} {place start dir : Place} {names : List String} {path : String} {content : Bytes}

/-! ### Directories -/

/-- The trees have the same directories. -/
structure SameDirectories (t t' : FileTree) : Prop where
  workingDir : t'.workingDir = t.workingDir
  directory : ∀ place, t'.node? place = some .directory ↔ t.node? place = some .directory

namespace SameDirectories

theorem refl (t : FileTree) : SameDirectories t t := ⟨rfl, fun _ => Iff.rfl⟩

theorem symm (h : SameDirectories t t') : SameDirectories t' t :=
  ⟨h.workingDir.symm, fun place => (h.directory place).symm⟩

theorem trans (h : SameDirectories t t') (h' : SameDirectories t' t'') : SameDirectories t t'' :=
  ⟨h'.workingDir.trans h.workingDir, fun place => (h'.directory place).trans (h.directory place)⟩

theorem origin (h : SameDirectories t t') (path : String) : t'.origin path = t.origin path := by
  rw [FileTree.origin, FileTree.origin, h.workingDir]

/-- Names that lead to a directory lead there in both trees: all on the way are directories. -/
theorem walk (h : SameDirectories t t') (hw : t.walk start names = .ok place)
    (hd : t.node? place = some .directory) : t'.walk start names = .ok place := by
  induction names generalizing start with
  | nil => exact hw
  | cons name names ih =>
    obtain ⟨hstart, next, hs, hw⟩ := walk_cons_iff.mp hw
    have hnext : t.node? next = some .directory := by
      cases names with
      | nil => cases hw; exact hd
      | cons name' names => exact (walk_cons_iff.mp hw).1
    refine walk_cons_iff.mpr ⟨(h.directory start).mpr hstart, next, ?_, ih hw⟩
    cases hs with
    | blank hn => exact .blank hn
    | up hn => exact .up hn
    | down hn hl _ => exact .down hn hl (by rw [(h.directory _).mpr hnext]; rfl)

end SameDirectories

theorem Stores.sameDirectories (h : Stores t place content t') : SameDirectories t t' where
  workingDir := by rw [h.eq_put, workingDir_put]
  directory other := by
    rw [h.node?_eq]
    split
    · next ho => simp [ho, h.not_directory]
    · exact Iff.rfl

/-! ### The place of a file -/

theorem SameDirectories.target (h : SameDirectories t t') :
    t'.target path = .ok place ↔ t.target path = .ok place := by
  have hsub : ∀ {t t' : FileTree}, SameDirectories t t' → t.target path = .ok place →
      t'.target path = .ok place := by
    intro t t' h ht
    obtain ⟨start, dirs, dir, name, ho, hp, hw, hd, hn, hlen, rfl⟩ := target_eq_ok_iff.mp ht
    exact target_eq_ok_iff.mpr ⟨start, dirs, dir, name, (h.origin path).trans ho, hp, h.walk hw hd,
      (h.directory dir).mpr hd, hn, hlen, rfl⟩
  exact ⟨hsub h.symm, hsub h⟩

/-- A path leads to the place that it gives to a file, once something is there. -/
theorem locate_of_target (h : t.target path = .ok place) (hn : (t.node? place).isSome) :
    t.locate path = .ok place := by
  obtain ⟨start, dirs, dir, name, ho, hp, hw, hd, hname, hlen, rfl⟩ := target_eq_ok_iff.mp h
  have hlast : t.walk dir [name] = .ok (dir ++ [name]) :=
    walk_cons_iff.mpr ⟨hd, _, .down hname hlen hn, rfl⟩
  rw [locate, ho]
  show t.walk start (Path.pieces path) = _
  rw [hp, walk_append, hw]
  exact hlast

theorem openFile_of_target (h : t.target path = .ok place) (hn : t.node? place = some (.file content)) :
    t.openFile path = .ok { bytes := content } := by
  rw [openFile, find, locate_of_target h (by rw [hn]; rfl)]
  simp only [bind, Except.bind, hn]

/-! ### Several files -/

/-- What writing files has made of a tree: the place of each path holds what was written there, and all other
places are as they were. -/
structure Writes (t : FileTree) (written : List (String × Bytes)) (t' : FileTree) : Prop where
  sameDirectories : SameDirectories t t'
  holds : ∀ e ∈ written, ∃ place, t.target e.1 = .ok place ∧ t'.node? place = some (.file e.2)
  frame : ∀ place, (∀ e ∈ written, t.target e.1 ≠ .ok place) → t'.node? place = t.node? place

namespace Writes

variable {written : List (String × Bytes)}

theorem nil (t : FileTree) : Writes t [] t :=
  ⟨.refl t, fun _ he => absurd he List.not_mem_nil, fun _ _ => rfl⟩

theorem snoc (h : Writes t written t') (hw : t'.write path content = .ok t'')
    (hne : ∀ e ∈ written, t.target e.1 ≠ t.target path) : Writes t (written ++ [(path, content)]) t'' := by
  obtain ⟨place, ht', hs⟩ := stores_of_write hw
  have ht : t.target path = .ok place := h.sameDirectories.target.mp ht'
  refine ⟨h.sameDirectories.trans hs.sameDirectories, ?_, ?_⟩
  · intro e he
    rcases List.mem_append.mp he with he | he
    · obtain ⟨other, ho, hn⟩ := h.holds e he
      refine ⟨other, ho, ?_⟩
      rw [hs.node?_eq, if_neg, hn]
      rintro rfl
      exact hne e he (ho.trans ht.symm)
    · obtain rfl := List.mem_singleton.mp he
      exact ⟨place, ht, by rw [hs.node?_eq, if_pos rfl]⟩
  · intro other ho
    have hplace : other ≠ place := by
      rintro rfl
      exact ho (path, content) (List.mem_append_right _ (List.mem_singleton_self _)) ht
    rw [hs.node?_eq, if_neg hplace]
    exact h.frame other fun e he => ho e (List.mem_append_left _ he)

theorem openFile (h : Writes t written t') (he : (path, content) ∈ written) :
    t'.openFile path = .ok { bytes := content } := by
  obtain ⟨place, ht, hn⟩ := h.holds _ he
  exact openFile_of_target (h.sameDirectories.target.mpr ht) hn

end Writes

theorem writes_of_write (h : t.write path content = .ok t') : Writes t [(path, content)] t' :=
  (Writes.nil t).snoc h fun _ he => absurd he List.not_mem_nil

end RecordLayout.FileTree
