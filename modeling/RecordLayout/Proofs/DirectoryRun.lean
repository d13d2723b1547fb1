import RecordLayout.Directory.Run
import RecordLayout.Proofs.DependencySearch
import RecordLayout.Proofs.FilePlaces
import RecordLayout.Proofs.Scan

/-!
# A run over a directory

Converting files one after the other reads each of them once, up to the first failure (`readings`).
`Consistent` says what the conversion knows in between: sizes of the records that were read, and answers
about records without any bytes. If the files declare each other's types without a cycle, every type
that is not built in is known when it is used (`Resolves`).
-/

namespace RecordLayout.Workspace

open DependencyOrder Conversion Relation

variable {ρ : Type} [SizeSource ρ] {w w' : Workspace ρ} {outDir : String} {file : DefinitionFile}

/-! ### Converting one file -/

/-- How converting a file ends. -/
inductive Converts (outDir : String) (w : Workspace ρ) (file : DefinitionFile) :
    Outcome (Workspace ρ) DirectoryError String → Prop
  | missing {fault : IoFault} (ho : w.files.openFile file.path = .error fault) :
      Converts outDir w file ⟨.error (.io file.path fault), w, []⟩
  | refused {source : Source} {e : DefinitionError} {c : Conversion ρ} {es : List Event}
      (ho : w.files.openFile file.path = .ok source)
      (hr : (readFrom source).run w.conversion = ⟨.error e, c, es⟩) :
      Converts outDir w file ⟨.error (.definition file.path e), { w with conversion := c }, es⟩
  | unwritable {source : Source} {d : RecordDef} {c : Conversion ρ} {es : List Event} {fault : IoFault}
      (ho : w.files.openFile file.path = .ok source)
      (hr : (readFrom source).run w.conversion = ⟨.ok d, c, es⟩)
      (hw : w.files.write (DefinitionFile.outputPath file.path outDir) (Bytes.ofString (c.render d)) =
        .error fault) :
      Converts outDir w file
        ⟨.error (.io (DefinitionFile.outputPath file.path outDir) fault), { w with conversion := c }, es⟩
  | written {source : Source} {d : RecordDef} {c : Conversion ρ} {es es' : List Event} {files : FileTree}
      (ho : w.files.openFile file.path = .ok source)
      (hr : (readFrom source).run w.conversion = ⟨.ok d, c, es⟩)
      (hw : w.files.write (DefinitionFile.outputPath file.path outDir) (Bytes.ofString (c.render d)) =
        .ok files) (hq : askedTypes es' = []) :
      Converts outDir w file ⟨.ok (DefinitionFile.outputPath file.path outDir), ⟨c, files⟩, es ++ es'⟩

theorem converts_run (outDir : String) (w : Workspace ρ) (file : DefinitionFile) :
    Converts outDir w file ((convertFile outDir file).run w) := by
  simp only [convertFile, Action.run_bind, Action.run_state, Action.run_ofExcept]
  cases ho : w.files.openFile file.path with
  | error fault => exact .missing ho
  | ok source =>
    simp only [mapError_ok, Action.run_within, Action.run_mapError]
    match hr : (readFrom source).run w.conversion with
    | ⟨.error e, c, es⟩ => exact .refused ho hr
    | ⟨.ok d, c, es⟩ =>
      simp only [mapError_ok]
      cases hw : w.files.write (DefinitionFile.outputPath file.path outDir) (Bytes.ofString (c.render d)) with
      | error fault =>
        simp only [mapError_error, List.append_nil, List.nil_append]
        exact .unwritable ho hr hw
      | ok files =>
        simp only [mapError_ok, Action.run_update, Action.run_log, Action.run_pure, List.nil_append]
        exact .written ho hr hw rfl

/-! ### Converting files one after the other -/

/-- A file and what reading it led to. -/
structure FileReading (ρ : Type) where
  file : DefinitionFile
  outcome : Outcome (Conversion ρ) DefinitionError RecordDef

namespace FileReading

def asked {ρ : Type} (r : FileReading ρ) : List String := askedTypes r.outcome.events

def Gives {ρ : Type} (r : FileReading ρ) (d : RecordDef) : Prop := r.outcome.result = .ok d

end FileReading

/-- What is read when files are converted in turn, up to the first failure. -/
def readings (outDir : String) : List DefinitionFile → Workspace ρ → List (FileReading ρ)
  | [], _ => []
  | file :: rest, w =>
    match w.files.openFile file.path with
    | .error _ => []
    | .ok source =>
      ⟨file, (readFrom source).run w.conversion⟩ ::
        match (convertFile outDir file).run w with
        | ⟨.ok _, w', _⟩ => readings outDir rest w'
        | ⟨.error _, _, _⟩ => []

/-- A file that is found is read. Only if its record code is written, the files behind it are read too. -/
theorem readings_cons (outDir : String) {source : Source} (ho : w.files.openFile file.path = .ok source)
    (rest : List DefinitionFile) :
    ∃ later, readings outDir (file :: rest) w = ⟨file, (readFrom source).run w.conversion⟩ :: later ∧
      (later = [] ∨ ∃ d c es t, (readFrom source).run w.conversion = ⟨.ok d, c, es⟩ ∧
        w.files.write (DefinitionFile.outputPath file.path outDir) (Bytes.ofString (c.render d)) = .ok t ∧
        later = readings outDir rest ⟨c, t⟩) := by
  have hconv := converts_run outDir w file
  rw [readings, ho]
  refine ⟨_, rfl, ?_⟩
  match h : (convertFile outDir file).run w with
  | ⟨.error e, w', es⟩ => exact .inl rfl
  | ⟨.ok out, w', es⟩ =>
    rw [h] at hconv
    cases hconv with
    | written ho' hr hw _ =>
      rw [ho] at ho'
      cases ho'
      exact .inr ⟨_, _, _, _, hr, hw, rfl⟩

theorem run_convertFiles_error {e : DirectoryError} {es : List Event} (rest : List DefinitionFile)
    (h : (convertFile outDir file).run w = ⟨.error e, w', es⟩) :
    (convertFiles outDir (file :: rest)).run w = ⟨.error e, w', es⟩ := by
  rw [convertFiles, Action.run_bind_error h]

theorem run_convertFiles_ok {out : String} {es : List Event} (rest : List DefinitionFile)
    (h : (convertFile outDir file).run w = ⟨.ok out, w', es⟩) :
    (convertFiles outDir (file :: rest)).run w =
      let o := (convertFiles outDir rest).run w'
      ⟨o.result.map (out :: ·), o.state, es ++ o.events⟩ := by
  rw [convertFiles, Action.run_bind_ok h, Action.run_bind]
  match (convertFiles outDir rest).run w' with
  | ⟨.error e, w'', es'⟩ => rfl
  | ⟨.ok outs, w'', es'⟩ => simp [Except.map]

theorem asked_convertFiles (outDir : String) (files : List DefinitionFile) (w : Workspace ρ) :
    askedTypes ((convertFiles outDir files).run w).events =
      (readings outDir files w).flatMap FileReading.asked := by
  induction files generalizing w with
  | nil => rfl
  | cons file rest ih =>
    have hc := converts_run outDir w file
    match h : (convertFile outDir file).run w with
    | ⟨.error e, w', es⟩ =>
      rw [run_convertFiles_error rest h]
      rw [h] at hc
      cases hc with
      | missing ho => simp [readings, ho]
      | refused ho hr => simp [readings, ho, h, hr, FileReading.asked]
      | unwritable ho hr hw => simp [readings, ho, h, hr, FileReading.asked]
    | ⟨.ok out, w', es⟩ =>
      rw [run_convertFiles_ok rest h]
      rw [h] at hc
      cases hc with
      | written ho hr hw hq => simp [readings, ho, h, hr, hq, ih, FileReading.asked]

theorem readings_of_ok {files : List DefinitionFile} {outs : List String}
    (h : ((convertFiles outDir files).run w).result = .ok outs) :
    (readings outDir files w).map FileReading.file = files ∧
      ∀ r ∈ readings outDir files w, ∃ d, r.Gives d := by
  induction files generalizing w outs with
  | nil => simp [readings]
  | cons file rest ih =>
    have hconv := converts_run outDir w file
    match hrun : (convertFile outDir file).run w with
    | ⟨.error e, w', es⟩ => rw [run_convertFiles_error rest hrun] at h; cases h
    | ⟨.ok out, w', es⟩ =>
      rw [hrun] at hconv
      rw [run_convertFiles_ok rest hrun] at h
      cases hconv with
      | @written source d c es es' t ho hr hw _ =>
        cases hrest : ((convertFiles outDir rest).run ⟨c, t⟩).result with
        | error e => simp only [hrest] at h; cases h
        | ok outs' =>
          obtain ⟨hmap, hgives⟩ := ih hrest
          simp only [readings, ho, hrun, List.map_cons, List.forall_mem_cons]
          exact ⟨by rw [hmap], ⟨d, by rw [FileReading.Gives, hr]⟩, hgives⟩

theorem run_forM_note {σ ε : Type} (es : List Event) (s : σ) :
    (es.forM Action.note : Action σ ε Unit).run s = ⟨.ok (), s, es⟩ := by
  induction es with
  | nil => rfl
  | cons e es ih =>
    rw [List.forM, Action.run_bind_ok (Action.run_note e s), ih]
    rfl

theorem asked_warnings (files : List DefinitionFile) : askedTypes (warnings files) = [] := by
  rw [warnings]
  induction (search files).cycles.filterMap (files[·]?) with
  | nil => rfl
  | cons f fs ih => exact ih

/-- Once the files are known, a run converts them in dependency order. -/
theorem run_convertDirectory {dir : String} {paths : List String} {files : List DefinitionFile}
    (hp : definitionPaths w.files dir = .ok paths) (hs : paths.mapM (scan w.files) = .ok files) :
    ∃ es, askedTypes es = [] ∧ (convertDirectory dir outDir).run w =
      let o := (convertFiles outDir (arrange files)).run w
      ⟨o.result, o.state, es ++ o.events⟩ := by
  refine ⟨warnings files ++
    [.log ⟨.info, .directory, s!"converting {(arrange files).length} struct file(s) from {dir}"⟩],
    by simp [asked_warnings], ?_⟩
  simp only [convertDirectory, Action.run_bind, Action.run_state, Action.run_ofExcept, hp, hs,
    run_forM_note, Action.run_log]
  simp

/-! ### The files that are found -/

/-- The file stands in the tree as it was scanned. -/
def StandsIn (t : FileTree) (file : DefinitionFile) : Prop :=
  t.IsDefinition file.path ∧
    ∃ text, t.openFile file.path = .ok (.ofString text) ∧ DefinitionFile.ofText file.path text = file

theorem isDefinition_of_definitionPaths {t : FileTree} {dir path : String} {paths : List String}
    (h : definitionPaths t dir = .ok paths) (hp : path ∈ paths) : t.IsDefinition path := by
  unfold definitionPaths at h
  cases hl : t.list dir with
  | error fault => rw [hl] at h; cases h
  | ok names =>
    rw [hl] at h
    cases h
    obtain ⟨name, hname, rfl⟩ := List.mem_map.mp hp
    rw [List.mem_mergeSort, List.mem_filter, Bool.and_eq_true, decide_eq_true_eq] at hname
    obtain ⟨-, hext, hfile⟩ := hname
    obtain ⟨n, hn, hsplit⟩ := Option.bind_eq_some_iff.mp hext
    unfold FileTree.isFile FileTree.find at hfile
    cases hloc : t.locate (Path.join dir name) with
    | error fault => rw [hloc] at hfile; cases hfile
    | ok place => exact ⟨place, n, hloc, FileTree.getLast?_of_locate_join hn hloc, hsplit⟩

theorem exists_of_scan {t : FileTree} {path : String} (h : scan t path = .ok file) :
    ∃ text, t.openFile path = .ok (.ofString text) ∧ DefinitionFile.ofText path text = file := by
  unfold scan FileTree.readText at h
  cases ho : t.openFile path with
  | error fault => rw [ho] at h; cases h
  | ok source =>
    rw [ho] at h
    obtain ⟨bytes, fault⟩ := source
    cases fault with
    | some fault => cases h
    | none =>
      cases ht : bytes.toString? with
      | none => simp only [ht, bind, Except.bind] at h; cases h
      | some text =>
        simp only [ht, bind, Except.bind] at h
        cases h
        exact ⟨text, by rw [Source.ofString, Bytes.ofString_of_toString? ht], rfl⟩

section MapM

variable {ε α β : Type} {f : α → Except ε β} {x : α} {y : β} {xs : List α} {ys : List β}

theorem exists_of_mapM_cons (h : (x :: xs).mapM f = .ok ys) :
    ∃ y ys', f x = .ok y ∧ xs.mapM f = .ok ys' ∧ ys = y :: ys' := by
  rw [List.mapM_cons] at h
  cases hx : f x with
  | error e => rw [hx] at h; cases h
  | ok y =>
    cases hxs : xs.mapM f with
    | error e => rw [hx, hxs] at h; cases h
    | ok ys' =>
      rw [hx, hxs] at h
      cases h
      exact ⟨y, ys', rfl, rfl, rfl⟩

theorem exists_of_mapM_ok (h : xs.mapM f = .ok ys) (hy : y ∈ ys) : ∃ x ∈ xs, f x = .ok y := by
  induction xs generalizing ys with
  | nil => cases h; cases hy
  | cons x xs ih =>
    obtain ⟨y', ys', hx, hxs, rfl⟩ := exists_of_mapM_cons h
    rcases List.mem_cons.mp hy with rfl | hy
    · exact ⟨x, List.mem_cons_self, hx⟩
    · obtain ⟨x', hx', hf⟩ := ih hxs hy
      exact ⟨x', List.mem_cons_of_mem _ hx', hf⟩

end MapM

theorem standsIn_of_scan {t : FileTree} {dir : String} {paths : List String} {files : List DefinitionFile}
    (hp : definitionPaths t dir = .ok paths) (hs : paths.mapM (scan t) = .ok files) (hf : file ∈ files) :
    StandsIn t file := by
  obtain ⟨path, hpath, hscan⟩ := exists_of_mapM_ok hs hf
  obtain ⟨text, ho, rfl⟩ := exists_of_scan hscan
  exact ⟨isDefinition_of_definitionPaths hp hpath, text, ho, rfl⟩

theorem StandsIn.of_write {t t' : FileTree} {input : String} {content : Bytes} (h : StandsIn t file)
    (hw : t.write (DefinitionFile.outputPath input outDir) content = .ok t') : StandsIn t' file := by
  obtain ⟨hd, text, ho, ht⟩ := h
  obtain ⟨hd', ho'⟩ := hd.of_write hw
  exact ⟨hd', text, ho'.trans ho, ht⟩

/-! ### What a run knows -/

variable {files rest : List DefinitionFile} {done : List (FileReading ρ)}

/-- The conversion has read `done`, and what it knows comes from there: each size is that of a record
that was read, or the answer to a question about its name. -/
structure Consistent (files : List DefinitionFile) (done : List (FileReading ρ)) (w : Workspace ρ) :
    Prop where
  standsIn : ∀ file ∈ files, StandsIn w.files file
  entry : ∀ name n, w.conversion.catalog.find? name = some n →
    ∃ r ∈ done, r.file.recordName = some name ∧
      (name ∈ done.flatMap FileReading.asked ∨ ∃ d, r.Gives d ∧ d.size = n)
  recorded : ∀ r ∈ done, ∃ d, r.Gives d ∧ ∀ name, r.file.recordName = some name → 0 < d.size →
    w.conversion.catalog.find? name = some d.size

/-- The questions and the sizes of a reading go back to the readings before it. -/
structure Resolves (done : List (FileReading ρ)) (r : FileReading ρ) : Prop where
  /-- Only records without any bytes are asked for. -/
  asked : ∀ name ∈ r.asked, ∃ q ∈ done, q.file.recordName = some name ∧ ∃ d, q.Gives d ∧ d.size = 0
  /-- The size of a record type is that of the record, unless it was asked for. -/
  sized : ∀ d, r.Gives d → ∀ f ∈ d.fields, primitiveSize? f.typeName = none →
    f.typeName ∉ (done ++ [r]).flatMap FileReading.asked →
    ∃ q ∈ done, q.file.recordName = some f.typeName ∧ ∃ d', q.Gives d' ∧ f.elementSize = d'.size

namespace Consistent

variable {text : String}

theorem resolves (hc : Consistent files done w)
    (hd : ∀ name ∈ (DefinitionFile.ofText file.path text).memberTypes, primitiveSize? name = none →
      ∃ r ∈ done, r.file.recordName = some name) :
    Resolves done ⟨file, (readFrom (.ofString text)).run w.conversion⟩ where
  asked name hname := by
    obtain ⟨hmem, hu⟩ := asked_readFrom file.path hname
    obtain ⟨q, hq, hqname⟩ := hd name hmem hu.1
    obtain ⟨d, hgives, hrec⟩ := hc.recorded q hq
    refine ⟨q, hq, hqname, d, hgives, Nat.eq_zero_of_not_pos fun hpos => ?_⟩
    -- a record with bytes would be known
    have hknown := SizeCatalog.size?_eq_some_iff.mpr ⟨hrec name hqname hpos, hpos⟩
    rw [hu.2] at hknown
    cases hknown
  sized d hgives f hf hp hn := by
    rw [List.flatMap_append, List.mem_append, not_or] at hn
    have hn' : f.typeName ∉ askedTypes ((readFrom (.ofString text)).run w.conversion).events := by
      simpa [FileReading.asked] using hn.2
    obtain ⟨q, hq, hqname, hask | ⟨d', hd', hsize⟩⟩ :=
      hc.entry f.typeName f.elementSize (elementSize_readFrom hgives hf hp hn')
    · exact absurd hask hn.1
    · exact ⟨q, hq, hqname, d', hd', hsize.symm⟩

/-- What is known when a record is recorded belongs to records read before. -/
theorem entry_of_asks {r : FileReading ρ} {c₁ : Conversion ρ} {name : String} {n : Nat}
    (hc : Consistent files done w) (hr : Resolves done r) (ha : Asks w.conversion r.asked c₁)
    (hn : c₁.catalog.find? name = some n) :
    ∃ q ∈ done, q.file.recordName = some name ∧
      (name ∈ (done ++ [r]).flatMap FileReading.asked ∨ ∃ d, q.Gives d ∧ d.size = n) := by
  by_cases hask : name ∈ r.asked
  · obtain ⟨q, hq, hqname, -⟩ := hr.asked name hask
    exact ⟨q, hq, hqname, .inl (by simp [hask])⟩
  · rw [ha.find?_of_not_mem hask] at hn
    obtain ⟨q, hq, hqname, h⟩ := hc.entry name n hn
    refine ⟨q, hq, hqname, h.imp_left fun h => ?_⟩
    rw [List.flatMap_append]
    exact List.mem_append_left _ h

theorem next {d : RecordDef} (hc : Consistent files done w) (ht : DefinitionFile.ofText file.path text = file)
    (hr : Resolves done ⟨file, (readFrom (.ofString text)).run w.conversion⟩)
    (hnew : ∀ q ∈ done, q.file.recordName ≠ file.recordName)
    (hd : ((readFrom (.ofString text)).run w.conversion).result = .ok d)
    (hw' : w'.conversion = ((readFrom (.ofString text)).run w.conversion).state)
    (hs : ∀ g ∈ files, StandsIn w'.files g) :
    Consistent files (done ++ [⟨file, (readFrom (.ofString text)).run w.conversion⟩]) w' := by
  obtain ⟨hname, c₁, ha, hcat⟩ := catalog_readFrom file.path hd
  rw [ht] at hname
  rw [← hw'] at hcat
  refine ⟨hs, fun name n hn => ?_, fun q hq => ?_⟩
  · rw [hcat] at hn
    rcases SizeCatalog.find?_of_recorded hn with hn | ⟨rfl, rfl⟩
    · obtain ⟨q, hq, h⟩ := hc.entry_of_asks hr ha hn
      exact ⟨q, List.mem_append_left _ hq, h⟩
    · exact ⟨_, List.mem_append_right _ (List.mem_singleton_self _), hname, .inr ⟨d, hd, rfl⟩⟩
  · rcases List.mem_append.mp hq with hq | hq
    · obtain ⟨d', hgives, hrec⟩ := hc.recorded q hq
      refine ⟨d', hgives, fun name hn hpos => ?_⟩
      rw [hcat]
      exact SizeCatalog.find?_recorded_of_some (ha.find?_of_some (hrec name hn hpos))
    · obtain rfl := List.mem_singleton.mp hq
      refine ⟨d, hd, fun name hn hpos => ?_⟩
      obtain rfl : d.name = name := Option.some.inj (hname.symm.trans hn)
      rw [hcat]
      refine SizeCatalog.find?_recorded_self ?_ hpos
      cases hk : c₁.catalog.find? d.name with
      | none => rfl
      | some n =>
        obtain ⟨q, hq, hqname, -⟩ := hc.entry_of_asks hr ha hk
        exact absurd (hqname.trans hname.symm) (hnew q hq)

/-- Every reading of a run goes back to those before it. -/
theorem resolves_readings (hc : Consistent files done w) (hsub : ∀ file ∈ rest, file ∈ files)
    (ho : DeclaredBefore (done.map FileReading.file ++ rest))
    (hd : ((done.map FileReading.file ++ rest).map DefinitionFile.recordName).Nodup)
    {pre post : List (FileReading ρ)} {r : FileReading ρ}
    (h : readings outDir rest w = pre ++ r :: post) : Resolves (done ++ pre) r := by
  induction rest generalizing done w pre with
  | nil => simp [readings] at h
  | cons file rest ih =>
    obtain ⟨-, text, hopen, htext⟩ := hc.standsIn file (hsub file List.mem_cons_self)
    have hres : Resolves done ⟨file, (readFrom (.ofString text)).run w.conversion⟩ := by
      refine hc.resolves fun name hname hp => ?_
      rw [htext] at hname
      obtain ⟨g, hg, hgname⟩ := ho _ file rest rfl name hname hp
      obtain ⟨q, hq, rfl⟩ := List.mem_map.mp hg
      exact ⟨q, hq, hgname⟩
    obtain ⟨later, hlater, hstep⟩ := readings_cons outDir hopen rest
    rw [hlater] at h
    cases pre with
    | nil =>
      obtain ⟨rfl, -⟩ := List.cons.inj h
      rwa [List.append_nil]
    | cons r' pre =>
      obtain ⟨rfl, htail⟩ := List.cons.inj h
      rcases hstep with rfl | ⟨d, c, es, t, hread, hwrite, rfl⟩
      · simp at htail
      · have hnew : ∀ q ∈ done, q.file.recordName ≠ file.recordName := by
          intro q hq he
          rw [List.map_append, List.nodup_append] at hd
          exact hd.2.2 _ (List.mem_map_of_mem (List.mem_map_of_mem hq)) _ List.mem_cons_self he
        have hnext : Consistent files (done ++ [⟨file, (readFrom (.ofString text)).run w.conversion⟩]) ⟨c, t⟩ :=
          hc.next htext hres hnew (by rw [hread]) (by rw [hread])
            fun g hg => (hc.standsIn g hg).of_write hwrite
        have hresolves := ih hnext (fun g hg => hsub g (List.mem_cons_of_mem _ hg)) (by simpa using ho)
          (by simpa using hd) htail
        rwa [List.append_assoc, List.singleton_append] at hresolves

end Consistent

omit [SizeSource ρ] in
theorem consistent_start {dir : String} {paths : List String} (hcat : w.conversion.catalog = .empty)
    (hp : definitionPaths w.files dir = .ok paths) (hs : paths.mapM (scan w.files) = .ok files) :
    Consistent files [] w where
  standsIn _ hf := standsIn_of_scan hp hs hf
  entry name n hn := by rw [hcat] at hn; cases hn
  recorded r hr := by cases hr

/-- A directory whose files declare all record types that they use, each once and without a cycle, needs
no help with their sizes. The size source is asked only for records that were read before and have no
bytes; all other fields of a record type have the size of the record that was read before. -/
theorem directory_resolves_records (w : Workspace ρ) (dir outDir : String) (paths : List String)
    (files : List DefinitionFile) (hcat : w.conversion.catalog = .empty)
    (hp : definitionPaths w.files dir = .ok paths) (hs : paths.mapM (scan w.files) = .ok files)
    (hd : (files.map DefinitionFile.recordName).Nodup)
    (ht : ∀ f ∈ files, ∀ name ∈ f.memberTypes,
      primitiveSize? name ≠ none ∨ ∃ g ∈ files, g.recordName = some name)
    (hc : ∀ i, ¬TransGen (Uses files) i i) :
    askedTypes ((convertDirectory dir outDir).run w).events =
      (readings outDir (arrange files) w).flatMap FileReading.asked ∧
    (∀ outs, ((convertDirectory dir outDir).run w).result = .ok outs →
      (readings outDir (arrange files) w).map FileReading.file = arrange files) ∧
    ∀ pre r post, readings outDir (arrange files) w = pre ++ r :: post → Resolves pre r := by
  obtain ⟨es, hq, hrun⟩ := run_convertDirectory hp hs
  have hnodup : ((arrange files).map DefinitionFile.recordName).Nodup :=
    ((perm_arrange files).map _).nodup_iff.mpr hd
  refine ⟨?_, ?_, ?_⟩
  · rw [hrun]
    show askedTypes (es ++ _) = _
    rw [askedTypes_append, hq, List.nil_append, asked_convertFiles]
  · intro outs ho
    rw [hrun] at ho
    exact (readings_of_ok ho).1
  · intro pre r post h
    exact (consistent_start hcat hp hs).resolves_readings (fun f hf => (perm_arrange files).subset hf)
      (declaredBefore_arrange hd ht hc) hnodup h

/-- Three files, of which one declares a record without bytes: it is asked for, and nothing else. -/
theorem directory_resolves_records_empty :
    let w : Workspace (String → Option Answer) := ⟨⟨"", .empty, fun _ => some ⟨2, false, by decide⟩⟩,
      ⟨[(["d"], .directory),
        (["d", "a.struct"], .file (.ofString "struct Outer\nInner x[2];\nEmpty e;\n\x7d;")),
        (["d", "b.struct"], .file (.ofString "struct Inner\nUInt32 n;\n\x7d;")),
        (["d", "c.struct"], .file (.ofString "struct Empty\n\x7d;"))],
        [], by decide +kernel, by decide +kernel, by decide⟩⟩
    let files : List DefinitionFile := [⟨"/d/a.struct", some "Outer", ["Inner", "Empty"]⟩,
      ⟨"/d/b.struct", some "Inner", ["UInt32"]⟩, ⟨"/d/c.struct", some "Empty", []⟩]
    askedTypes ((convertDirectory "/d" "/d").run w).events = ["Empty"] ∧
    ∃ q ∈ readings "/d" (arrange files) w, q.file.recordName = some "Empty" ∧ ∃ d, q.Gives d ∧ d.size = 0 := by
  intro w files
  have hpaths : definitionPaths w.files "/d" = .ok ["/d/a.struct", "/d/b.struct", "/d/c.struct"] := by
    have hlist : w.files.list "/d" = .ok ["a.struct", "b.struct", "c.struct"] := by decide +kernel
    have hfound : (["a.struct", "b.struct", "c.struct"].filter fun name =>
        Path.extension? name = some DefinitionFile.inputExtension &&
          w.files.isFile (Path.join "/d" name)) = ["a.struct", "b.struct", "c.struct"] := by decide +kernel
    have hsorted : ["a.struct", "b.struct", "c.struct"].mergeSort (fun a b => decide (a ≤ b)) =
        ["a.struct", "b.struct", "c.struct"] := List.mergeSort_of_pairwise (by decide +kernel)
    simp only [definitionPaths, hlist, hfound, hsorted, mapError_ok, bind, Except.bind]
    decide +kernel
  have hscan : ["/d/a.struct", "/d/b.struct", "/d/c.struct"].mapM (scan w.files) = .ok files := by
    decide +kernel
  -- every file uses records of later files only
  have hlater : ∀ i j, Uses files i j → i < j := by
    have hall : ∀ i < files.length, ∀ f ∈ files[i]?, ∀ name ∈ f.memberTypes,
        ∀ j ∈ declaring? files name, i < j := by decide
    rintro i j ⟨f, hf, name, hname, hl⟩
    exact hall i (List.getElem?_eq_some_iff.mp hf).1 f hf name hname j (declaring?_eq_some_iff.mpr hl)
  have hacyclic : ∀ i, ¬TransGen (Uses files) i i := by
    intro i hi
    have hlt : ∀ j, TransGen (Uses files) i j → i < j := by
      intro j hj
      induction hj with
      | single h => exact hlater _ _ h
      | tail _ h ih => exact ih.trans (hlater _ _ h)
    exact Nat.lt_irrefl i (hlt i hi)
  have harrange : arrange files = [⟨"/d/b.struct", some "Inner", ["UInt32"]⟩,
      ⟨"/d/c.struct", some "Empty", []⟩, ⟨"/d/a.struct", some "Outer", ["Inner", "Empty"]⟩] := by
    decide +kernel
  have h := directory_resolves_records w "/d" "/d" _ files rfl hpaths hscan (by decide) (by decide) hacyclic
  have hasked : (readings "/d" (arrange files) w).flatMap FileReading.asked = ["Empty"] := by
    rw [harrange]
    decide +kernel
  refine ⟨h.1.trans hasked, ?_⟩
  have hmem : "Empty" ∈ (readings "/d" (arrange files) w).flatMap FileReading.asked := by
    rw [hasked]
    exact List.mem_singleton_self _
  obtain ⟨r, hr, hname⟩ := List.mem_flatMap.mp hmem
  obtain ⟨pre, post, hsplit⟩ := List.append_of_mem hr
  obtain ⟨q, hq, hq'⟩ := (h.2.2 pre r post hsplit).asked "Empty" hname
  exact ⟨q, by rw [hsplit]; exact List.mem_append_left _ hq, hq'⟩

end RecordLayout.Workspace
