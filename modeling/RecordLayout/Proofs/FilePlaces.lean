import RecordLayout.Directory.DefinitionFile
import RecordLayout.FileTree

/-!
# Where files are read and written

A path that leads to a file leads to a place with the file name of the path (`getLast?_of_locate_join`).
Writing a file changes the node at one place, which is no directory, so all paths that led somewhere
before lead there still (`Stores.locate_eq`). Record code is written to names that end in the extension for
it, so that no definition file is written over.
-/

namespace RecordLayout

namespace Path

variable {dir path name : String}

theorem cut_ne_nil (cs : List Char) : cut cs ≠ [] := by
  cases cs with
  | nil => simp [cut]
  | cons c cs =>
    rw [cut]
    split
    · simp
    · split <;> simp

theorem cut_append_slash (a b : List Char) : cut (a ++ '/' :: b) = cut a ++ cut b := by
  induction a with
  | nil =>
    show cut ('/' :: b) = [] :: cut b
    rw [cut]
    cases h : cut b with
    | nil => exact absurd h (cut_ne_nil b)
    | cons p ps => exact if_pos rfl
  | cons c a ih =>
    rw [List.cons_append, cut, ih, cut]
    cases h : cut a with
    | nil => exact absurd h (cut_ne_nil a)
    | cons p ps =>
      simp only [List.cons_append]
      split <;> rfl

theorem slash_not_mem_of_mem_cut {cs p : List Char} (h : p ∈ cut cs) : '/' ∉ p := by
  induction cs generalizing p with
  | nil =>
    obtain rfl := List.mem_singleton.mp h
    exact List.not_mem_nil
  | cons c cs ih =>
    rw [cut] at h
    split at h
    · next hn => exact absurd hn (cut_ne_nil cs)
    · next q qs hq =>
      rw [hq] at ih
      split at h
      · rcases List.mem_cons.mp h with rfl | h
        · exact List.not_mem_nil
        · exact ih h
      · next hc =>
        rcases List.mem_cons.mp h with rfl | h
        · simpa [Ne.symm hc] using ih List.mem_cons_self
        · exact ih (List.mem_cons_of_mem _ h)

theorem slash_not_mem_of_mem_pieces (h : name ∈ pieces path) : '/' ∉ name.toList := by
  obtain ⟨p, hp, rfl⟩ := List.mem_map.mp h
  rw [String.toList_ofList]
  exact slash_not_mem_of_mem_cut hp

theorem cut_of_not_mem {cs : List Char} (h : '/' ∉ cs) : cut cs = [cs] := by
  induction cs with
  | nil => rfl
  | cons c cs ih =>
    rw [List.mem_cons, not_or] at h
    rw [cut, ih h.2]
    exact if_neg (Ne.symm h.1)

theorem getLast?_cut_append {p : List Char} (a b : List Char) (hb : '/' ∉ b)
    (hp : (cut (a ++ b)).getLast? = some p) : ∃ q, p = q ++ b := by
  induction a generalizing p with
  | nil =>
    rw [List.nil_append, cut_of_not_mem hb] at hp
    exact ⟨[], by simpa using hp.symm⟩
  | cons c a ih =>
    rw [List.cons_append, cut] at hp
    cases h : cut (a ++ b) with
    | nil => exact absurd h (cut_ne_nil _)
    | cons p' ps =>
      rw [h] at hp ih
      simp only at hp
      split at hp
      · exact ih (by rwa [List.getLast?_cons_cons] at hp)
      · cases ps with
        | nil =>
          obtain ⟨q, hq⟩ := ih rfl
          exact ⟨c :: q, by rw [List.cons_append, ← hq]; simpa using hp.symm⟩
        | cons p'' ps => exact ih (by rwa [List.getLast?_cons_cons] at hp ⊢)

theorem exists_pieces_join (dir path : String) : ∃ front, pieces (join dir path) = front ++ pieces path := by
  unfold join
  split
  · exact ⟨[], rfl⟩
  · split
    · rename_i hd
      rcases hd with rfl | hd
      · exact ⟨[], by simp⟩
      · obtain ⟨d, hd⟩ := List.getLast?_eq_some_iff.mp hd
        refine ⟨(cut d).map String.ofList, ?_⟩
        rw [pieces, String.toList_append, hd, List.append_assoc, List.singleton_append, cut_append_slash,
          List.map_append, pieces]
    · refine ⟨pieces dir, ?_⟩
      rw [pieces, String.toList_append, String.toList_append, List.append_assoc,
        show "/".toList = ['/'] from rfl, List.singleton_append, cut_append_slash, List.map_append]
      rfl

theorem exists_of_getLast?_join {stem ext : String} (hs : '/' ∉ ext.toList)
    (h : (pieces (join dir (stem ++ "." ++ ext))).getLast? = some name) :
    ∃ front, name.toList = front ++ '.' :: ext.toList := by
  obtain ⟨front, hj⟩ := exists_pieces_join dir (stem ++ "." ++ ext)
  have htext : (stem ++ "." ++ ext).toList = stem.toList ++ '.' :: ext.toList := by
    simp
  obtain ⟨p, hp⟩ : ∃ p, (cut (stem.toList ++ '.' :: ext.toList)).getLast? = some p :=
    ⟨_, List.getLast?_eq_some_getLast (cut_ne_nil _)⟩
  rw [hj, List.getLast?_append, pieces, htext, List.getLast?_map, hp, Option.map_some, Option.some_or] at h
  cases h
  obtain ⟨q, rfl⟩ := getLast?_cut_append _ _ (by simpa using hs) hp
  exact ⟨q, String.toList_ofList⟩

theorem part?_eq_name_iff {piece : String} :
    part? piece = some (.name name) ↔ piece = name ∧ piece ≠ "" ∧ piece ≠ "." ∧ piece ≠ ".." := by
  unfold part?
  split
  · rename_i h
    rcases h with rfl | rfl <;> simp
  · rename_i h
    rw [not_or] at h
    split
    · rename_i h'
      simp [h']
    · rename_i h'
      simp [h.1, h.2, h']

/-- The file name is the last piece that means something. -/
theorem exists_of_fileName? (h : fileName? path = some name) :
    ∃ front back, pieces path = front ++ name :: back ∧ part? name = some (.name name) ∧
      ∀ piece ∈ back, part? piece = none := by
  have hlast : ((pieces path).filterMap part?).getLast? = some (.name name) := by
    unfold fileName? at h
    split at h
    · rename_i text ht
      cases h
      -- a mark at the start is not a name
      rw [parts, List.getLast?_append] at ht
      cases hf : ((pieces path).filterMap part?).getLast? with
      | some p => rw [hf] at ht; exact ht
      | none =>
        rw [hf, Option.none_or] at ht
        split at ht
        · cases ht
        · split at ht <;> cases ht
    · cases h
  rw [List.getLast?_filterMap, List.findSome?_eq_some_iff] at hlast
  obtain ⟨back, piece, front, hl, hp, hb⟩ := hlast
  obtain ⟨rfl, -⟩ := part?_eq_name_iff.mp hp
  refine ⟨front.reverse, back.reverse, ?_, hp, fun q hq => hb q (List.mem_reverse.mp hq)⟩
  rw [← List.reverse_reverse (pieces path), hl]
  simp

theorem splitName_snd {front ext : List Char} (h : name.toList = front ++ '.' :: ext) (hd : '.' ∉ ext) :
    (splitName name).2 = if front = [] then none else some (String.ofList ext) := by
  have hrev : name.toList.reverse = ext.reverse ++ '.' :: front.reverse := by
    rw [h]
    simp
  have hext : ∀ c ∈ ext.reverse, (c != '.') = true := by
    intro c hc
    rw [bne_iff_ne]
    rintro rfl
    exact hd (List.mem_reverse.mp hc)
  have hafter : name.toList.reverse.takeWhile (· != '.') = ext.reverse := by
    rw [hrev, List.takeWhile_append_of_pos hext, List.takeWhile_cons_of_neg (by decide), List.append_nil]
  have hbefore : name.toList.reverse.dropWhile (· != '.') = '.' :: front.reverse := by
    rw [hrev, List.dropWhile_append_of_pos hext, List.dropWhile_cons_of_neg (by decide)]
  simp only [splitName, hbefore, hafter, List.reverse_reverse]
  cases hf : front.reverse with
  | nil => rw [if_pos (List.reverse_eq_nil_iff.mp hf)]
  | cons c cs => rw [if_neg fun hn => by rw [hn] at hf; cases hf]

end Path

theorem Place.IsPlain.append {place place' : Place} (h : place.IsPlain) (h' : place'.IsPlain) :
    Place.IsPlain (place ++ place') := by
  intro name hname
  rcases List.mem_append.mp hname with hname | hname
  · exact h name hname
  · exact h' name hname

namespace FileTree

variable {t t' : FileTree} {place other start : Place} {names : List String} {path : String}

/-! ### Following a path -/

theorem walk_append (names' : List String) :
    t.walk start (names ++ names') = (t.walk start names).bind fun p => t.walk p names' := by
  induction names generalizing start with
  | nil => rfl
  | cons name names ih =>
    rw [List.cons_append, walk, walk]
    cases t.node? start with
    | none => rfl
    | some n =>
      cases n with
      | file => rfl
      | directory =>
        simp only
        split
        · exact ih
        · split
          · exact ih
          · split
            · rfl
            · split
              · rfl
              · exact ih

/-- One step of a path, from a directory. -/
inductive Steps (t : FileTree) (start : Place) (name : String) : Place → Prop
  | blank (hn : Path.part? name = none) : Steps t start name start
  | up (hn : Path.part? name = some .up) : Steps t start name start.dropLast
  | down (hn : Path.part? name = some (.name name)) (hl : name.utf8ByteSize ≤ maxName)
      (he : (t.node? (start ++ [name])).isSome) : Steps t start name (start ++ [name])

theorem walk_cons_iff {name : String} : t.walk start (name :: names) = .ok place ↔
    t.node? start = some .directory ∧ ∃ next, t.Steps start name next ∧ t.walk next names = .ok place := by
  rw [walk]
  match t.node? start with
  | none => simp
  | some (.file _) => simp
  | some .directory =>
    simp only [true_and]
    constructor
    · intro h
      split at h
      · rename_i hb
        exact ⟨_, .blank (if_pos hb), h⟩
      · rename_i hb
        split at h
        · rename_i hu
          exact ⟨_, .up (by rw [Path.part?, if_neg hb, if_pos hu]), h⟩
        · rename_i hu
          split at h
          · cases h
          · split at h
            · cases h
            · rename_i hl he
              refine ⟨_, .down (by rw [Path.part?, if_neg hb, if_neg hu]) (Nat.not_lt.mp hl) ?_, h⟩
              exact Option.isSome_iff_ne_none.mpr fun hnone => he (by rw [hnone]; rfl)
    · rintro ⟨next, hs, h⟩
      cases hs with
      | blank hn =>
        have hb : name = "" ∨ name = "." := by
          unfold Path.part? at hn
          split at hn
          · assumption
          · split at hn <;> cases hn
        rwa [if_pos hb]
      | up hn =>
        unfold Path.part? at hn
        split at hn
        · cases hn
        · rename_i hb
          split at hn
          · rename_i hu
            rwa [if_neg hb, if_pos hu]
          · cases hn
      | down hn hl he =>
        obtain ⟨-, h₁, h₂, h₃⟩ := Path.part?_eq_name_iff.mp hn
        have he' : ¬(t.node? (start ++ [name])).isNone = true := by
          rw [Option.isNone_iff_eq_none]
          exact Option.isSome_iff_ne_none.mp he
        rwa [if_neg (not_or.mpr ⟨h₁, h₂⟩), if_neg h₃, if_neg (Nat.not_lt.mpr hl), if_neg he']

theorem plain_of_origin (h : t.origin path = .ok start) : start.IsPlain := by
  unfold origin at h
  split at h
  · cases h
  · split at h
    · cases h
    · split at h
      · cases h
      · cases h
        split
        · exact fun _ h => absurd h List.not_mem_nil
        · exact t.workingDir_plain

theorem plain_of_walk (hs : start.IsPlain) (hn : ∀ name ∈ names, '/' ∉ name.toList)
    (h : t.walk start names = .ok place) : place.IsPlain := by
  induction names generalizing start with
  | nil => cases h; exact hs
  | cons name names ih =>
    obtain ⟨-, next, hstep, h⟩ := walk_cons_iff.mp h
    refine ih ?_ (fun name hname => hn name (List.mem_cons_of_mem _ hname)) h
    cases hstep with
    | blank => exact hs
    | up => exact fun name hname => hs name (List.dropLast_subset _ hname)
    | down =>
      refine hs.append fun name' hname' => ?_
      rw [List.mem_singleton.mp hname']
      exact hn name List.mem_cons_self

theorem walk_blank (hb : ∀ name ∈ names, Path.part? name = none) (h : t.walk start names = .ok place) :
    place = start := by
  induction names with
  | nil => cases h; rfl
  | cons name names ih =>
    obtain ⟨-, next, hs, h⟩ := walk_cons_iff.mp h
    have hn := hb name List.mem_cons_self
    cases hs with
    | blank => exact ih (fun name hname => hb name (List.mem_cons_of_mem _ hname)) h
    | up hu => rw [hu] at hn; cases hn
    | down hd => rw [hd] at hn; cases hn

theorem getLast?_of_walk {name : String} {front back : List String}
    (hn : Path.part? name = some (.name name)) (hb : ∀ piece ∈ back, Path.part? piece = none)
    (h : t.walk start (front ++ name :: back) = .ok place) : place.getLast? = some name := by
  rw [walk_append] at h
  cases hf : t.walk start front with
  | error fault => rw [hf] at h; cases h
  | ok p =>
    rw [hf] at h
    obtain ⟨-, next, hs, h⟩ := walk_cons_iff.mp h
    cases hs with
    | blank hn' => rw [hn'] at hn; cases hn
    | up hu => rw [hu] at hn; cases hn
    | down =>
      rw [walk_blank hb h, List.getLast?_append]
      rfl

theorem exists_walk_of_locate (h : t.locate path = .ok place) :
    ∃ start, t.origin path = .ok start ∧ t.walk start (Path.pieces path) = .ok place := by
  unfold locate at h
  cases ho : t.origin path with
  | error fault => rw [ho] at h; cases h
  | ok start => exact ⟨start, rfl, by rw [ho] at h; exact h⟩

theorem getLast?_of_locate_join {dir name : String} (hn : Path.fileName? path = some name)
    (h : t.locate (Path.join dir path) = .ok place) : place.getLast? = some name := by
  obtain ⟨start, -, hw⟩ := exists_walk_of_locate h
  obtain ⟨front, hj⟩ := Path.exists_pieces_join dir path
  obtain ⟨front', back, hp, hname, hback⟩ := Path.exists_of_fileName? hn
  rw [hj, hp, ← List.append_assoc] at hw
  exact getLast?_of_walk hname hback hw

/-! ### Writing a file -/

theorem lookup_replace (place other : Place) (n : Node) :
    (t.replace place n).nodes.lookup other =
      if other = place then (t.nodes.lookup place).map fun _ => n else t.nodes.lookup other := by
  dsimp only [replace]
  induction t.nodes with
  | nil => simp
  | cons e nodes ih =>
    obtain ⟨p, m⟩ := e
    rw [List.map_cons]
    by_cases hp : p = place
    · subst hp
      rw [if_pos rfl]
      by_cases ho : other = p
      · simp [ho]
      · rw [if_neg ho] at ih ⊢
        rw [List.lookup_cons, beq_false_of_ne ho, ih, List.lookup_cons, beq_false_of_ne ho]
    · rw [if_neg hp]
      by_cases ho : other = p
      · subst ho
        simp [hp]
      · rw [List.lookup_cons, beq_false_of_ne ho, ih, List.lookup_cons, beq_false_of_ne (Ne.symm hp),
          List.lookup_cons, beq_false_of_ne ho]

theorem node?_put {n : Node} (hne : place ≠ []) (hp : place.IsPlain) :
    (t.put place n).node? other = if other = place then some n else t.node? other := by
  have hlookup : (t.put place n).nodes.lookup other =
      if other = place then some n else t.nodes.lookup other := by
    unfold put
    rw [dif_pos hp]
    split
    · next hnone =>
      rw [add, List.lookup_append]
      by_cases ho : other = place
      · simp [ho, hnone]
      · rw [List.lookup_cons, beq_false_of_ne ho, if_neg ho]
        simp
    · next hsome =>
      obtain ⟨m, hm⟩ := Option.ne_none_iff_exists'.mp hsome
      rw [lookup_replace, hm, Option.map_some]
  unfold node?
  rw [hlookup]
  cases other with
  | nil => simp [Ne.symm hne]
  | cons => simp

theorem workingDir_put (n : Node) : (t.put place n).workingDir = t.workingDir := by
  unfold put
  split
  · split <;> rfl
  · rfl

/-- The node at one place, which was no directory, has become a file. -/
structure Stores (t : FileTree) (place : Place) (content : Bytes) (t' : FileTree) : Prop where
  place_ne : place ≠ []
  plain : place.IsPlain
  not_directory : t.node? place ≠ some .directory
  eq_put : t' = t.put place (.file content)

namespace Stores

variable {content : Bytes}

theorem node?_eq (h : Stores t place content t') :
    t'.node? other = if other = place then some (.file content) else t.node? other := by
  rw [h.eq_put, node?_put h.place_ne h.plain]

theorem node?_directory (h : Stores t place content t') (hd : t.node? other = some .directory) :
    t'.node? other = some .directory := by
  rw [h.node?_eq, if_neg, hd]
  rintro rfl
  exact h.not_directory hd

theorem steps (h : Stores t place content t') {name : String} (hs : t.Steps start name other) :
    t'.Steps start name other := by
  cases hs with
  | blank hn => exact .blank hn
  | up hn => exact .up hn
  | down hn hl he =>
    refine .down hn hl ?_
    rw [h.node?_eq]
    split
    · rfl
    · exact he

theorem walk_eq (h : Stores t place content t') (hw : t.walk start names = .ok other) :
    t'.walk start names = .ok other := by
  induction names generalizing start with
  | nil => exact hw
  | cons name names ih =>
    obtain ⟨hd, next, hs, hw⟩ := walk_cons_iff.mp hw
    exact walk_cons_iff.mpr ⟨h.node?_directory hd, next, h.steps hs, ih hw⟩

theorem locate_eq (h : Stores t place content t') (hl : t.locate path = .ok other) :
    t'.locate path = .ok other := by
  obtain ⟨start, ho, hw⟩ := exists_walk_of_locate hl
  have ho' : t'.origin path = .ok start := by
    rw [← ho, h.eq_put, origin, origin, workingDir_put]
  rw [locate, ho']
  exact h.walk_eq hw

theorem openFile_eq (h : Stores t place content t') (hl : t.locate path = .ok other) (hne : other ≠ place) :
    t'.openFile path = t.openFile path := by
  rw [openFile, openFile, find, find, h.locate_eq hl, hl]
  simp only [bind, Except.bind, h.node?_eq, if_neg hne]

end Stores

theorem directory_eq_ok_iff : t.directory start names = .ok place ↔
    t.walk start names = .ok place ∧ t.node? place = some .directory := by
  unfold directory
  cases hw : t.walk start names with
  | error fault => simp [bind, Except.bind]
  | ok p =>
    simp only [bind, Except.bind]
    cases hn : t.node? p with
    | none => simp; rintro rfl; simp [hn]
    | some n =>
      cases n with
      | file => simp; rintro rfl; simp [hn]
      | directory => simp; rintro rfl; exact hn

/-- A path gives a place in a directory to a file, with the last name of the path. -/
theorem target_eq_ok_iff : t.target path = .ok place ↔
    ∃ start dirs dir name, t.origin path = .ok start ∧ Path.pieces path = dirs ++ [name] ∧
      t.walk start dirs = .ok dir ∧ t.node? dir = some .directory ∧ Path.part? name = some (.name name) ∧
      name.utf8ByteSize ≤ maxName ∧ place = dir ++ [name] := by
  unfold target
  simp only [bind, Except.bind]
  constructor
  · intro h
    split at h
    · cases h
    · next start ho =>
      split at h
      · cases h
      · next name dirs hrev =>
        have hp : Path.pieces path = dirs.reverse ++ [name] := by
          rw [← List.reverse_reverse (Path.pieces path), hrev, List.reverse_cons]
        split at h
        · split at h <;> cases h
        · next hempty =>
          split at h
          · cases h
          · next dir hdir =>
            split at h
            · cases h
            · next hdots =>
              split at h
              · cases h
              · next hlen =>
                cases h
                rw [not_or] at hdots
                obtain ⟨hw, hd⟩ := directory_eq_ok_iff.mp hdir
                exact ⟨start, dirs.reverse, dir, name, ho, hp, hw, hd,
                  Path.part?_eq_name_iff.mpr ⟨rfl, hempty, hdots⟩, Nat.not_lt.mp hlen, rfl⟩
  · rintro ⟨start, dirs, dir, name, ho, hp, hw, hd, hn, hlen, rfl⟩
    obtain ⟨-, hempty, hdots⟩ := Path.part?_eq_name_iff.mp hn
    have hdir : t.directory start dirs.reverse.reverse = .ok dir := by
      rw [List.reverse_reverse]
      exact directory_eq_ok_iff.mpr ⟨hw, hd⟩
    rw [ho, hp]
    simp only [List.reverse_append, List.reverse_singleton, List.singleton_append, hdir]
    rw [if_neg hempty, if_neg (not_or.mpr hdots), if_neg (Nat.not_lt.mpr hlen)]

theorem exists_of_target (h : t.target path = .ok place) :
    ∃ dir name, place = dir ++ [name] ∧ (Path.pieces path).getLast? = some name := by
  obtain ⟨start, dirs, dir, name, -, hp, -, -, -, -, rfl⟩ := target_eq_ok_iff.mp h
  exact ⟨dir, name, rfl, by rw [hp, List.getLast?_concat]⟩

theorem plain_of_target (h : t.target path = .ok place) : place.IsPlain := by
  obtain ⟨start, dirs, dir, name, ho, hp, hw, -, -, -, rfl⟩ := target_eq_ok_iff.mp h
  have hnames : Place.IsPlain (dirs ++ [name]) := by
    rw [← hp]
    exact fun piece hpiece => Path.slash_not_mem_of_mem_pieces hpiece
  have hdir := plain_of_walk (plain_of_origin ho) (fun piece hpiece => hnames piece (List.mem_append_left _ hpiece)) hw
  exact hdir.append fun piece hpiece => hnames piece (List.mem_append_right _ hpiece)

theorem stores_of_write {content : Bytes} (h : t.write path content = .ok t') :
    ∃ place, t.target path = .ok place ∧ Stores t place content t' := by
  unfold write at h
  cases ht : t.target path with
  | error fault => rw [ht] at h; cases h
  | ok place =>
    have hplain := plain_of_target ht
    obtain ⟨dir, name, rfl, -⟩ := exists_of_target ht
    rw [ht] at h
    simp only [bind, Except.bind] at h
    split at h
    · cases h
    · next hd =>
      cases h
      exact ⟨_, rfl, by simp, hplain, hd, rfl⟩

/-! ### Definition files -/

/-- The path leads to a place where definitions stand. -/
def IsDefinition (t : FileTree) (path : String) : Prop :=
  ∃ place name, t.locate path = .ok place ∧ place.getLast? = some name ∧
    (Path.splitName name).2 = some DefinitionFile.inputExtension

/-- Record code never goes where a definition stands. -/
theorem IsDefinition.locate_ne {input outDir : String} (h : t.IsDefinition path)
    (ht : t.target (DefinitionFile.outputPath input outDir) = .ok place) : t.locate path ≠ .ok place := by
  intro hl
  obtain ⟨place', name, hl', hlast, hext⟩ := h
  rw [hl] at hl'
  cases hl'
  obtain ⟨dir, name', rfl, hname'⟩ := exists_of_target ht
  rw [List.getLast?_append, List.getLast?_singleton, Option.some_or] at hlast
  cases hlast
  -- the name would have both extensions
  obtain ⟨front, hfront⟩ := Path.exists_of_getLast?_join (by decide) hname'
  rw [Path.splitName_snd hfront (by decide)] at hext
  split at hext
  · cases hext
  · exact absurd (Option.some.inj hext) (by decide)

/-- Writing record code leaves definitions alone. -/
theorem IsDefinition.of_write {input outDir : String} {content : Bytes} (h : t.IsDefinition path)
    (hw : t.write (DefinitionFile.outputPath input outDir) content = .ok t') :
    t'.IsDefinition path ∧ t'.openFile path = t.openFile path := by
  obtain ⟨place, ht, hs⟩ := stores_of_write hw
  obtain ⟨place', name, hl, hlast, hext⟩ := h
  have hne : place' ≠ place := by
    rintro rfl
    exact IsDefinition.locate_ne ⟨_, name, hl, hlast, hext⟩ ht hl
  exact ⟨⟨place', name, hs.locate_eq hl, hlast, hext⟩, hs.openFile_eq hl hne⟩

end FileTree

end RecordLayout
