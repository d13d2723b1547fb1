import RecordLayout.Proofs.DirectoryRun
import RecordLayout.Proofs.FileWrites

/-!
# The files of a directory run

Definition files of one directory have different names that all end in the same extension, so their
record code goes to files of different names (`output_injective`) and each file that is written has a place of
its own. No definition is written over either, so every definition is read as it was before the run
(`InTurn`). Both together give what a run leaves behind, whether it comes to its end or not
(`convertFiles_cases`).
-/

namespace RecordLayout

open DefinitionFile

/-! ### Names without a slash -/

namespace Path

variable {dir name ext : String}

theorem pieces_of_not_mem (h : '/' ∉ name.toList) : pieces name = [name] := by
  rw [pieces, cut_of_not_mem h]
  simp

theorem fileName?_of_not_mem {n : String} (hs : '/' ∉ name.toList) (h : fileName? name = some n) : n = name := by
  obtain ⟨front, back, hp, -, -⟩ := exists_of_fileName? h
  rw [pieces_of_not_mem hs] at hp
  have hlen := congrArg List.length hp
  simp only [List.length_append, List.length_cons, List.length_nil] at hlen
  obtain rfl : front = [] := List.eq_nil_of_length_eq_zero (by omega)
  exact (List.cons.inj hp).1.symm

theorem fileName?_join (hs : '/' ∉ name.toList) (h : fileName? name = some name) :
    fileName? (join dir name) = some name := by
  obtain ⟨front, hj⟩ := exists_pieces_join dir name
  obtain ⟨-, -, -, hn, -⟩ := exists_of_fileName? h
  have hlast : (parts (join dir name)).getLast? = some (.name name) := by
    rw [parts, hj, pieces_of_not_mem hs]
    simp [hn]
  rw [fileName?, hlast]

theorem toList_of_splitName (h : (splitName name).2 = some ext) :
    name.toList = (splitName name).1.toList ++ '.' :: ext.toList := by
  have hrev := List.takeWhile_append_dropWhile (p := (· != '.')) (l := name.toList.reverse)
  have hhead := List.head?_dropWhile_not (· != '.') name.toList.reverse
  match hd : name.toList.reverse.dropWhile (· != '.') with
  | [] => simp [splitName, hd] at h
  | [_] => simp [splitName, hd] at h
  | c :: d :: before =>
    rw [hd] at hrev hhead
    obtain rfl : c = '.' := by simpa using hhead
    simp only [splitName, hd, Option.some.injEq] at h ⊢
    have htext := congrArg List.reverse hrev
    rw [List.reverse_reverse] at htext
    rw [← htext, ← h]
    simp

theorem eq_of_splitName {name' : String} (h : (splitName name).2 = some ext) (h' : (splitName name').2 = some ext)
    (he : (splitName name).1 = (splitName name').1) : name = name' := by
  apply String.toList_inj.mp
  rw [toList_of_splitName h, toList_of_splitName h', he]

end Path

/-! ### Where record code goes -/

namespace DefinitionFile

variable {dir outDir name name' : String}

/-- A name for a definition file. -/
structure IsInputName (name : String) : Prop where
  noSlash : '/' ∉ name.toList
  extension : Path.extension? name = some inputExtension

namespace IsInputName

theorem fileName?_eq (h : IsInputName name) : Path.fileName? name = some name := by
  obtain ⟨n, hn, -⟩ := Option.bind_eq_some_iff.mp h.extension
  rwa [Path.fileName?_of_not_mem h.noSlash hn] at hn

theorem splitName_snd (h : IsInputName name) : (Path.splitName name).2 = some inputExtension := by
  have hext := h.extension
  rwa [Path.extension?, h.fileName?_eq, Option.bind_some] at hext

/-- Record code goes to the name with the other extension. -/
theorem getLast?_outputPath (h : IsInputName name) :
    (Path.pieces (outputPath (Path.join dir name) outDir)).getLast? =
      some ((Path.splitName name).1 ++ "." ++ outputExtension) := by
  have hstem : Path.stem? (Path.join dir name) = some (Path.splitName name).1 := by
    rw [Path.stem?, Path.fileName?_join h.noSlash h.fileName?_eq, Option.map_some]
  have hslash : '/' ∉ ((Path.splitName name).1 ++ "." ++ outputExtension).toList := by
    have hname := h.noSlash
    rw [Path.toList_of_splitName h.splitName_snd, List.mem_append, not_or] at hname
    simp only [String.toList_append, List.mem_append, not_or]
    exact ⟨⟨hname.1, by decide⟩, by decide⟩
  obtain ⟨front, hj⟩ := Path.exists_pieces_join outDir ((Path.splitName name).1 ++ "." ++ outputExtension)
  rw [outputPath, hstem, Option.getD_some, hj, Path.pieces_of_not_mem hslash, List.getLast?_append]
  rfl

theorem output_injective (dir outDir : String) (h : IsInputName name) (h' : IsInputName name')
    (he : (Path.pieces (outputPath (Path.join dir name) outDir)).getLast? =
      (Path.pieces (outputPath (Path.join dir name') outDir)).getLast?) : name = name' := by
  rw [h.getLast?_outputPath, h'.getLast?_outputPath] at he
  have hstem : (Path.splitName name).1 = (Path.splitName name').1 := by
    have htext := congrArg String.toList (Option.some.inj he)
    simp only [String.toList_append, List.append_cancel_right_eq] at htext
    exact String.toList_inj.mp htext
  exact Path.eq_of_splitName h.splitName_snd h'.splitName_snd hstem

end IsInputName

end DefinitionFile

/-! ### What a directory lists -/

namespace FileTree

variable {t t' : FileTree} {place : Place} {dir path other : String} {names : List String}

theorem node?_child (place : Place) (name : String) :
    t.node? (place ++ [name]) = t.nodes.lookup (place ++ [name]) := by
  rw [node?, if_neg (by simp)]

theorem isSome_child_iff {name : String} :
    (t.node? (place ++ [name])).isSome ↔ place ++ [name] ∈ t.nodes.map Prod.fst := by
  rw [node?_child, List.lookup_isSome_iff, List.mem_map]
  constructor
  · rintro ⟨e, he, hp⟩
    exact ⟨e, he, (beq_iff_eq.mp hp).symm⟩
  · rintro ⟨e, he, hp⟩
    exact ⟨e, he, beq_iff_eq.mpr hp.symm⟩

theorem exists_of_list (h : t.list dir = .ok names) :
    ∃ place, t.locate dir = .ok place ∧ names.Nodup ∧
      ∀ name, name ∈ names ↔ (t.node? (place ++ [name])).isSome := by
  unfold FileTree.list at h
  cases hl : t.locate dir with
  | error fault => rw [hl] at h; cases h
  | ok place =>
    rw [hl] at h
    simp only [bind, Except.bind] at h
    have hchild : ∀ (p : Place) (name : String),
        (if p.dropLast = place then p.getLast? else none) = some name ↔ p = place ++ [name] := by
      intro p name
      constructor
      · intro h
        split at h
        · next hp =>
          obtain ⟨front, rfl⟩ := List.getLast?_eq_some_iff.mp h
          rw [← hp, List.dropLast_concat]
        · cases h
      · rintro rfl
        simp
    split at h
    · cases h
      refine ⟨place, rfl, ?_, ?_⟩
      · have hnames := t.nodup.filterMap (f := fun p : Place => if p.dropLast = place then p.getLast? else none)
          fun p q name hp hq => ((hchild p name).mp hp).trans ((hchild q name).mp hq).symm
        rwa [List.filterMap_map] at hnames
      · intro name
        rw [isSome_child_iff, List.mem_filterMap, List.mem_map]
        simp only [hchild]
    · cases h
    · cases h

/-- The names of the definition files in a directory, in their order. -/
structure Lists (t : FileTree) (dir : String) (names : List String) : Prop where
  sorted : names.Pairwise (· < ·)
  mem_iff : ∃ place, t.locate dir = .ok place ∧ ∀ name, name ∈ names ↔
    (t.node? (place ++ [name])).isSome ∧ Path.extension? name = some inputExtension ∧
      t.isFile (Path.join dir name)

theorem Lists.isInputName (h : t.Lists dir names) {name : String} (hn : name ∈ names) : IsInputName name := by
  obtain ⟨place, -, hmem⟩ := h.mem_iff
  obtain ⟨hsome, hext, -⟩ := (hmem name).mp hn
  obtain ⟨e, he, hplace⟩ := List.mem_map.mp (isSome_child_iff.mp hsome)
  refine ⟨t.plain e he name ?_, hext⟩
  rw [hplace]
  exact List.mem_append_right _ (List.mem_singleton_self name)

theorem pairwise_lt_mergeSort (h : names.Nodup) :
    (names.mergeSort fun a b => decide (a ≤ b)).Pairwise (· < ·) := by
  have hle : (names.mergeSort fun a b => decide (a ≤ b)).Pairwise fun a b => decide (a ≤ b) = true := by
    refine List.pairwise_mergeSort (fun a b c hab hbc => ?_) (fun a b => ?_) names
    · rw [decide_eq_true_eq] at hab hbc ⊢
      exact String.le_trans hab hbc
    · simpa using String.le_total a b
  have hne : (names.mergeSort fun a b => decide (a ≤ b)).Pairwise (· ≠ ·) := List.nodup_mergeSort.mpr h
  refine hle.imp₂ (fun a b hab hne => ?_) hne
  apply String.not_le.mp
  intro hba
  exact hne (String.le_antisymm (decide_eq_true_eq.mp hab) hba)

theorem lists_of_definitionPaths {paths : List String} (h : Workspace.definitionPaths t dir = .ok paths) :
    ∃ names, t.Lists dir names ∧ paths = names.map (Path.join dir) := by
  unfold Workspace.definitionPaths at h
  cases hl : t.list dir with
  | error fault => rw [hl] at h; cases h
  | ok names =>
    rw [hl] at h
    cases h
    obtain ⟨place, hplace, hnodup, hmem⟩ := exists_of_list hl
    refine ⟨_, ⟨pairwise_lt_mergeSort (hnodup.filter _), place, hplace, fun name => ?_⟩, rfl⟩
    rw [List.mem_mergeSort, List.mem_filter, hmem, Bool.and_eq_true, decide_eq_true_eq]

theorem target_ne (h : t.target path = .ok place)
    (hne : (Path.pieces path).getLast? ≠ (Path.pieces other).getLast?) : t.target path ≠ t.target other := by
  intro he
  obtain ⟨dir, name, rfl, hname⟩ := exists_of_target h
  obtain ⟨dir', name', hplace, hname'⟩ := exists_of_target (he.symm.trans h)
  have hlast := (List.append_inj' hplace rfl).2
  rw [List.singleton_inj] at hlast
  exact hne (by rw [hname, hname', hlast])

end FileTree

/-! ### What a run leaves behind -/

namespace Workspace

open DependencyOrder Conversion FileTree

variable {ρ : Type} [SizeSource ρ] {t : FileTree} {w w' : Workspace ρ} {dir outDir : String}
  {file : DefinitionFile} {files : List DefinitionFile} {paths : List String}

/-- What is written when definitions of the tree are converted in turn by one conversion, each as it stands in
the tree. -/
inductive InTurn (t : FileTree) (outDir : String) :
    Conversion ρ → List DefinitionFile → List (String × Bytes) → Conversion ρ → Prop
  | nil (c : Conversion ρ) : InTurn t outDir c [] [] c
  | cons {c c' c'' : Conversion ρ} {file : DefinitionFile} {rest : List DefinitionFile} {source : Source}
      {d : RecordDef} {es : List Event} {written : List (String × Bytes)}
      (ho : t.openFile file.path = .ok source) (hr : (readFrom source).run c = ⟨.ok d, c', es⟩)
      (h : InTurn t outDir c' rest written c'') :
      InTurn t outDir c (file :: rest) ((outputPath file.path outDir, .ofString (c'.render d)) :: written) c''

theorem InTurn.map_fst {c c' : Conversion ρ} {written : List (String × Bytes)}
    (h : InTurn t outDir c files written c') : written.map Prod.fst = files.map (outputPath ·.path outDir) := by
  induction h with
  | nil => rfl
  | cons _ _ _ ih => rw [List.map_cons, ih, List.map_cons]

theorem Converts.files_eq {e : DirectoryError} {es : List Event}
    (h : Converts outDir w file ⟨.error e, w', es⟩) : w'.files = w.files := by
  cases h <;> rfl

theorem Converts.path_eq {path : String} {e : DefinitionError} {es : List Event}
    (h : Converts outDir w file ⟨.error (.definition path e), w', es⟩) : file.path = path := by
  cases h
  rfl

/-- The last names of the paths differ. -/
def DistinctNames (paths : List String) : Prop := (paths.map fun path => (Path.pieces path).getLast?).Nodup

/-- Files that were not read yet stand as they stood in the tree, whatever was written. -/
def Unread (t : FileTree) (files : List DefinitionFile) (t' : FileTree) : Prop :=
  ∀ file ∈ files, t'.IsDefinition file.path ∧ t'.openFile file.path = t.openFile file.path

theorem Unread.of_write {t' t'' : FileTree} {content : Bytes} (h : Unread t files t')
    (hw : t'.write (outputPath file.path outDir) content = .ok t'') : Unread t files t'' := by
  intro g hg
  obtain ⟨hd, ho⟩ := h g hg
  obtain ⟨hd', ho'⟩ := hd.of_write hw
  exact ⟨hd', ho'.trans ho⟩

/-- A run either writes the record code of all files, or that of the files before the first one that cannot
be converted. -/
theorem convertFiles_cases {done : List (String × Bytes)} (hu : Unread t files w.files)
    (hw : t.Writes done w.files) (hd : DistinctNames (done.map Prod.fst ++ files.map (outputPath ·.path outDir))) :
    let o := (convertFiles outDir files).run w
    (∃ written, InTurn t outDir w.conversion files written o.state.conversion ∧
      o.result = .ok (written.map Prod.fst) ∧ t.Writes (done ++ written) o.state.files) ∨
    ∃ pre file post written c e es, files = pre ++ file :: post ∧ InTurn t outDir w.conversion pre written c ∧
      o.result = .error e ∧ Converts outDir ⟨c, o.state.files⟩ file ⟨.error e, o.state, es⟩ ∧
      t.Writes (done ++ written) o.state.files := by
  -- what was written so far, and that the files to come still stand, carries the induction
  induction files generalizing w done with
  | nil => exact .inl ⟨[], .nil _, rfl, by rwa [List.append_nil]⟩
  | cons file rest ih =>
    have hconv := converts_run outDir w file
    match hrun : (convertFile outDir file).run w with
    | ⟨.error e, w', es⟩ =>
      rw [hrun] at hconv
      rw [run_convertFiles_error rest hrun]
      refine .inr ⟨[], file, rest, [], w.conversion, e, es, rfl, .nil _, rfl, ?_, ?_⟩
      · rwa [hconv.files_eq]
      · rwa [hconv.files_eq, List.append_nil]
    | ⟨.ok out, w', es⟩ =>
      rw [hrun] at hconv
      rw [run_convertFiles_ok rest hrun]
      cases hconv with
      | @written source d c es es' t' ho hr hwrite _ =>
        have hopen : t.openFile file.path = .ok source := by
          rw [← (hu file List.mem_cons_self).2, ho]
        have hu' : Unread t rest t' := by
          apply Unread.of_write _ hwrite
          intro g hg
          exact hu g (List.mem_cons_of_mem _ hg)
        have hnew : ∀ e ∈ done, t.target e.1 ≠ t.target (outputPath file.path outDir) := by
          intro e he
          obtain ⟨place, hplace, -⟩ := hw.holds e he
          apply target_ne hplace
          intro hlast
          rw [DistinctNames, List.map_append, List.nodup_append] at hd
          exact hd.2.2 _ (List.mem_map_of_mem (List.mem_map_of_mem he)) _ List.mem_cons_self hlast
        have hw' := hw.snoc hwrite hnew
        have hd' : DistinctNames (
            (done ++ [(outputPath file.path outDir, Bytes.ofString (c.render d))]).map Prod.fst ++
              rest.map (outputPath ·.path outDir)) := by
          simpa using hd
        rcases ih (w := ⟨c, t'⟩) hu' hw' hd' with ⟨written, hin, hres, hall⟩ |
          ⟨pre, bad, post, written, c', e, es, rfl, hin, hres, hbad, hall⟩
        · refine .inl ⟨_, .cons hopen hr hin, ?_, ?_⟩
          · simp only [hres, Except.map, List.map_cons]
          · simpa using hall
        · refine .inr ⟨file :: pre, bad, post, _, c', e, es, rfl, .cons hopen hr hin, ?_, hbad, ?_⟩
          · simp only [hres, Except.map]
          · simpa using hall

theorem run_convertDirectory_unlisted {e : DirectoryError} (h : definitionPaths w.files dir = .error e) :
    (convertDirectory dir outDir).run w = ⟨.error e, w, []⟩ := by
  simp only [convertDirectory, Action.run_bind, Action.run_state, Action.run_ofExcept, h, List.nil_append]

theorem run_convertDirectory_unscanned {e : DirectoryError} (hp : definitionPaths w.files dir = .ok paths)
    (h : paths.mapM (scan w.files) = .error e) :
    (convertDirectory dir outDir).run w = ⟨.error e, w, []⟩ := by
  simp only [convertDirectory, Action.run_bind, Action.run_state, Action.run_ofExcept, hp, h, List.nil_append]

theorem map_path_of_scan (h : paths.mapM (scan t) = .ok files) : files.map DefinitionFile.path = paths := by
  induction paths generalizing files with
  | nil => cases h; rfl
  | cons path paths ih =>
    obtain ⟨file, rest, hscan, hrest, rfl⟩ := exists_of_mapM_cons h
    obtain ⟨text, -, rfl⟩ := exists_of_scan hscan
    rw [List.map_cons, ih hrest]
    rfl

/-- The files of a directory have different outputs, in any order. -/
theorem distinctNames_arrange (outDir : String) (hp : definitionPaths t dir = .ok paths)
    (hs : paths.mapM (scan t) = .ok files) : DistinctNames ((arrange files).map (outputPath ·.path outDir)) := by
  obtain ⟨names, hl, hpaths⟩ := lists_of_definitionPaths hp
  have hnames : names.Nodup := hl.sorted.imp fun h => String.ne_of_lt h
  have houts : DistinctNames (files.map (outputPath ·.path outDir)) := by
    have hout : files.map (outputPath ·.path outDir) =
        names.map fun name => outputPath (Path.join dir name) outDir := by
      have hmap := congrArg (List.map (outputPath · outDir)) ((map_path_of_scan hs).trans hpaths)
      simpa only [List.map_map, Function.comp_def] using hmap
    rw [DistinctNames, hout, List.map_map]
    refine hnames.map_on fun a ha b hb he => ?_
    dsimp only [Function.comp_apply] at he
    exact IsInputName.output_injective dir outDir (hl.isInputName ha) (hl.isInputName hb) he
  have hperm := ((perm_arrange files).map (outputPath ·.path outDir)).map fun path => (Path.pieces path).getLast?
  exact hperm.nodup_iff.mpr houts

omit [SizeSource ρ] in
theorem unread_arrange (hp : definitionPaths w.files dir = .ok paths)
    (hs : paths.mapM (scan w.files) = .ok files) : Unread w.files (arrange files) w.files := by
  intro file hf
  have hstands := standsIn_of_scan hp hs ((perm_arrange files).subset hf)
  exact ⟨hstands.1, rfl⟩

/-- What a run over a directory does to the files. The definition files are those with the right extension, by
name, and they are converted in dependency order. If all goes well, the record code of each definition, as it
stood before the run, is in a file of its own. If a file cannot be converted, this holds of the files before it.
No other file has changed. If the directory or one of its files cannot be read, nothing has changed at all. -/
theorem directory_writes_exactly (w : Workspace ρ) (dir outDir : String) :
    let o := (convertDirectory dir outDir).run w
    (∀ e, definitionPaths w.files dir = .error e → o.result = .error e ∧ o.state = w) ∧
    ∀ paths, definitionPaths w.files dir = .ok paths →
      (∃ names, w.files.Lists dir names ∧ paths = names.map (Path.join dir)) ∧
      (∀ e, paths.mapM (scan w.files) = .error e → o.result = .error e ∧ o.state = w) ∧
      ∀ files, paths.mapM (scan w.files) = .ok files →
        ((arrange files).map DefinitionFile.path).Perm paths ∧
        (∀ outs, o.result = .ok outs → ∃ written,
          InTurn w.files outDir w.conversion (arrange files) written o.state.conversion ∧
          outs = (arrange files).map (fun file => outputPath file.path outDir) ∧ outs = written.map Prod.fst ∧
          outs.Nodup ∧ w.files.Writes written o.state.files) ∧
        ∀ e, o.result = .error e → ∃ pre file post written c es, arrange files = pre ++ file :: post ∧
          InTurn w.files outDir w.conversion pre written c ∧
          Converts outDir ⟨c, o.state.files⟩ file ⟨.error e, o.state, es⟩ ∧
          w.files.Writes written o.state.files := by
  intro o
  refine ⟨fun e he => ?_, fun paths hp => ⟨lists_of_definitionPaths hp, fun e he => ?_, fun files hs => ?_⟩⟩
  · rw [show o = _ from run_convertDirectory_unlisted he]
    exact ⟨rfl, rfl⟩
  · rw [show o = _ from run_convertDirectory_unscanned hp he]
    exact ⟨rfl, rfl⟩
  · have hnames := distinctNames_arrange outDir hp hs
    obtain ⟨es, -, hrun⟩ : ∃ es, askedTypes es = [] ∧ o = _ := run_convertDirectory hp hs
    have hperm : ((arrange files).map DefinitionFile.path).Perm paths := by
      rw [← map_path_of_scan hs]
      exact (perm_arrange files).map _
    rw [hrun]
    refine ⟨hperm, ?_⟩
    rcases convertFiles_cases (unread_arrange hp hs) (.nil w.files) hnames with
      ⟨written, hin, hres, hall⟩ | ⟨pre, file, post, written, c, e, es, hsplit, hin, hres, hfail, hall⟩
    · refine ⟨fun outs ho => ?_, fun e he => ?_⟩
      · obtain rfl : written.map Prod.fst = outs := Except.ok.inj (hres.symm.trans ho)
        refine ⟨written, hin, hin.map_fst, rfl, ?_, hall⟩
        rw [hin.map_fst]
        exact hnames.of_map _
      · cases hres.symm.trans he
    · refine ⟨fun outs ho => ?_, fun e' he => ?_⟩
      · cases hres.symm.trans ho
      · obtain rfl : e = e' := Except.error.inj (hres.symm.trans he)
        exact ⟨pre, file, post, written, c, es, hsplit, hin, hfail, hall⟩

/-- The last of three files uses an unknown type. The two before it are converted, the one without members of
record types first, over what stood there. -/
theorem directory_writes_exactly_stopped :
    let w : Workspace (String → Option Answer) := ⟨⟨"", .empty, fun _ => none⟩,
      ⟨[(["d", "z.struct"], .file (.ofString "struct Z\nNone n;\n\x7d;")),
        (["d", "b.c.struct"], .file (.ofString "struct B\nUInt8 n;\n\x7d;")),
        (["d"], .directory),
        (["d", ".struct"], .file []),
        (["d", "a.struct"], .file (.ofString "struct A\nB b;\n\x7d;")),
        (["d", "b.c.rs"], .file (.ofString "old"))], [], by decide +kernel, by decide +kernel, by decide⟩⟩
    let o := (convertDirectory "/d" "/d").run w
    o.result = .error (.definition "/d/z.struct" (.unresolvableType "None" 2)) ∧
    ∃ written, written.map Prod.fst = ["/d/b.c.rs", "/d/a.rs"] ∧ w.files.Writes written o.state.files := by
  intro w o
  have hpaths : definitionPaths w.files "/d" = .ok ["/d/a.struct", "/d/b.c.struct", "/d/z.struct"] := by
    have hlist : w.files.list "/d" = .ok ["z.struct", "b.c.struct", ".struct", "a.struct", "b.c.rs"] := by
      decide +kernel
    have hfound : (["z.struct", "b.c.struct", ".struct", "a.struct", "b.c.rs"].filter fun name =>
        Path.extension? name = some inputExtension && w.files.isFile (Path.join "/d" name)) =
          ["z.struct", "b.c.struct", "a.struct"] := by decide +kernel
    have hsorted : ["z.struct", "b.c.struct", "a.struct"].mergeSort (fun a b => decide (a ≤ b)) =
        ["a.struct", "b.c.struct", "z.struct"] := by
      simp [List.mergeSort, List.MergeSort.Internal.splitInTwo]
    simp only [definitionPaths, hlist, hfound, hsorted, mapError_ok, bind, Except.bind]
    decide +kernel
  let files : List DefinitionFile := [⟨"/d/a.struct", some "A", ["B"]⟩, ⟨"/d/b.c.struct", some "B", ["UInt8"]⟩,
    ⟨"/d/z.struct", some "Z", ["None"]⟩]
  have hscan : ["/d/a.struct", "/d/b.c.struct", "/d/z.struct"].mapM (scan w.files) = .ok files := by
    decide +kernel
  have harrange : arrange files = [⟨"/d/b.c.struct", some "B", ["UInt8"]⟩, ⟨"/d/a.struct", some "A", ["B"]⟩,
      ⟨"/d/z.struct", some "Z", ["None"]⟩] := by
    decide +kernel
  have hresult : o.result = .error (.definition "/d/z.struct" (.unresolvableType "None" 2)) := by
    obtain ⟨es, -, hrun⟩ : ∃ es, askedTypes es = [] ∧ o = _ := run_convertDirectory hpaths hscan
    rw [hrun, harrange]
    dsimp only
    decide +kernel
  obtain ⟨-, hlisted⟩ := directory_writes_exactly w "/d" "/d"
  obtain ⟨-, -, hscanned⟩ := hlisted _ hpaths
  obtain ⟨-, -, hstopped⟩ := hscanned files hscan
  obtain ⟨pre, file, post, written, c, es, hsplit, hin, hfail, hall⟩ := hstopped _ hresult
  refine ⟨hresult, written, ?_, hall⟩
  have hpath := hfail.path_eq
  have hpre : pre = (arrange files).take 2 := by
    rw [harrange] at hsplit ⊢
    rcases pre with _ | ⟨p, _ | ⟨q, _ | ⟨r, pre⟩⟩⟩
    · obtain ⟨rfl, -⟩ := List.cons.inj hsplit
      exact absurd hpath (by decide)
    · simp only [List.cons_append, List.nil_append, List.cons.injEq] at hsplit
      obtain ⟨-, rfl, -⟩ := hsplit
      exact absurd hpath (by decide)
    · simp only [List.cons_append, List.nil_append, List.cons.injEq] at hsplit
      obtain ⟨rfl, rfl, -⟩ := hsplit
      rfl
    · simp at hsplit
  rw [hin.map_fst, hpre, harrange]
  decide +kernel

end Workspace

end RecordLayout
