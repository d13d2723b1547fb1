import RecordLayout.Directory.DependencyOrder
import RecordLayout.Primitive
import Mathlib.Data.List.Induction
import Mathlib.Data.List.Nodup
import Mathlib.Logic.Relation

/-!
# The search for a dependency order

`Visits` describes what the search does, file by file: a finished file is passed over, one that is
being searched closes a cycle, and any other is finished behind the files that it depends on. All that
holds of the search is shown by induction on it. A file that is finished before one that it depends on
lies on a cycle with it (`Visits.ordered`).
-/

namespace RecordLayout.DependencyOrder

open Relation

/-! ### The dependency relation -/

/-- The file at `j` is the last one that declares the record. -/
def LastDeclaring (files : List DefinitionFile) (name : String) (j : Nat) : Prop :=
  files[j]?.bind DefinitionFile.recordName = some name ∧
    ∀ k, j < k → files[k]?.bind DefinitionFile.recordName ≠ some name

/-- The file at `i` uses the record that the file at `j` declares. -/
def Uses (files : List DefinitionFile) (i j : Nat) : Prop :=
  ∃ f, files[i]? = some f ∧ ∃ name ∈ f.memberTypes, LastDeclaring files name j

/-- The file at `i` uses the record of another file, that at `j`. -/
def DependsOn (files : List DefinitionFile) (i j : Nat) : Prop := Uses files i j ∧ j ≠ i

variable {files : List DefinitionFile} {name : String} {i j : Nat}

theorem LastDeclaring.lt_length (h : LastDeclaring files name j) : j < files.length := by
  obtain ⟨f, hf, -⟩ := Option.bind_eq_some_iff.mp h.1
  exact (List.getElem?_eq_some_iff.mp hf).1

theorem lastDeclaring_append_singleton {f : DefinitionFile} :
    LastDeclaring (files ++ [f]) name j ↔
      if f.recordName = some name then j = files.length else LastDeclaring files name j := by
  have hold : ∀ k : Nat, k ≠ files.length → (files ++ [f])[k]? = files[k]? := by
    intro k hk
    rcases Nat.lt_or_gt_of_ne hk with hk | hk
    · rw [List.getElem?_append_left hk]
    · rw [List.getElem?_eq_none (by simp; omega), List.getElem?_eq_none (by omega)]
  have hnew : (files ++ [f])[files.length]? = some f := by simp
  split
  · rename_i hf
    constructor
    · intro h
      have hlt := h.lt_length
      rw [List.length_append, List.length_singleton] at hlt
      by_contra hj
      exact h.2 files.length (by omega) (by rw [hnew]; exact hf)
    · rintro rfl
      refine ⟨by rw [hnew]; exact hf, fun k hk => ?_⟩
      rw [hold k (by omega), List.getElem?_eq_none (by omega)]
      simp
  · rename_i hf
    have hsame : ∀ k : Nat, ((files ++ [f])[k]?.bind DefinitionFile.recordName = some name) ↔
        (files[k]?.bind DefinitionFile.recordName = some name) := by
      intro k
      by_cases hk : k = files.length
      · subst hk
        rw [hnew, List.getElem?_eq_none (Nat.le_refl _)]
        simp [hf]
      · rw [hold k hk]
    simp only [LastDeclaring, Ne, hsame]

theorem declaring?_append_singleton {f : DefinitionFile} :
    declaring? (files ++ [f]) name =
      if f.recordName = some name then some files.length else declaring? files name := by
  rw [declaring?, List.zipIdx_append, List.zipIdx_singleton, List.reverse_append, List.reverse_singleton,
    List.singleton_append, List.find?_cons, Nat.zero_add]
  dsimp only
  split
  · rename_i hf
    rw [if_pos (beq_iff_eq.mp hf)]
    rfl
  · rename_i hf
    rw [if_neg (beq_eq_false_iff_ne.mp hf)]
    rfl

theorem declaring?_eq_some_iff : declaring? files name = some j ↔ LastDeclaring files name j := by
  induction files using List.reverseRecOn with
  | nil => simp [declaring?, LastDeclaring]
  | append_singleton files f ih =>
    rw [lastDeclaring_append_singleton, declaring?_append_singleton, ← ih]
    split
    · rw [Option.some.injEq, eq_comm]
    · rfl

theorem mem_dependencies_iff : j ∈ dependencies files i ↔ DependsOn files i j := by
  rw [dependencies, DependsOn, Uses]
  cases hf : files[i]? with
  | none => simp
  | some f => simp [declaring?_eq_some_iff]

theorem mem_dependencies_eq : (fun a b => b ∈ dependencies files a) = DependsOn files := by
  funext a b
  exact propext mem_dependencies_iff

theorem DependsOn.lt_length (h : DependsOn files i j) : j < files.length := by
  obtain ⟨⟨f, -, name, -, hl⟩, -⟩ := h
  exact hl.lt_length

theorem lt_length_of_mem_dependencies (h : j ∈ dependencies files i) : j < files.length :=
  (mem_dependencies_iff.mp h).lt_length

/-! ### What the search does -/

/-- Searching files one after the other, where `idle` are those that are not being searched. -/
inductive Visits (deps : Nat → List Nat) : List Nat → List Nat → Progress → Progress → Prop
  | nil {idle p} : Visits deps idle [] p p
  | finished {idle i is p p'} : i ∈ p.order → Visits deps idle is p p' → Visits deps idle (i :: is) p p'
  | cycle {idle i is p p'} : i ∉ p.order → i ∉ idle →
    Visits deps idle is { p with cycles := p.cycles ++ [i] } p' → Visits deps idle (i :: is) p p'
  | enter {idle i is p q p'} : i ∉ p.order → i ∈ idle → Visits deps (idle.erase i) (deps i) p q →
    Visits deps idle is { q with order := q.order ++ [i] } p' → Visits deps idle (i :: is) p p'

theorem visits_foldl (deps : Nat → List Nat) (idle is : List Nat) (p : Progress) :
    Visits deps idle is p (is.foldl (fun p i => visit deps idle i p) p) := by
  -- every file that is entered leaves one file less that can be
  induction hn : idle.length using Nat.strongRecOn generalizing idle is p with
  | ind n ih =>
    induction is generalizing p with
    | nil => exact .nil
    | cons i is ihis =>
      rw [List.foldl_cons]
      by_cases ho : i ∈ p.order
      · rw [visit, if_pos ho]
        exact .finished ho (ihis p)
      · by_cases hi : i ∈ idle
        · rw [visit, if_neg ho, dif_pos hi]
          have hlt : (idle.erase i).length < n := by
            rw [List.length_erase_of_mem hi, ← hn]
            exact Nat.sub_lt (List.length_pos_of_mem hi) Nat.one_pos
          exact .enter ho hi (ih _ hlt _ (deps i) p rfl) (ihis _)
        · rw [visit, if_neg ho, dif_neg hi]
          exact .cycle ho hi (ihis _)

theorem visits_search (files : List DefinitionFile) :
    Visits (dependencies files) (List.range files.length) (List.range files.length) ⟨[], []⟩ (search files) :=
  visits_foldl _ _ _ _

theorem forall_split_snoc {P : List Nat → Nat → Prop} {order : List Nat}
    (h : ∀ pre k post, order = pre ++ k :: post → P pre k) (hi : P order i) :
    ∀ pre k post, order ++ [i] = pre ++ k :: post → P pre k := by
  intro pre k post he
  rcases List.eq_nil_or_concat post with rfl | ⟨post', l, rfl⟩
  · obtain ⟨rfl, hk⟩ := List.append_inj' he rfl
    cases hk
    exact hi
  · rw [List.concat_eq_append, ← List.cons_append, ← List.append_assoc] at he
    obtain ⟨rfl, -⟩ := List.append_inj' he rfl
    exact h pre k post' rfl

/-- Each file stands behind those it depends on, unless they lead back to it. -/
def Ordered (deps : Nat → List Nat) (order : List Nat) : Prop :=
  ∀ pre i post, order = pre ++ i :: post → ∀ j ∈ deps i, j ∈ pre ∨ TransGen (fun a b => b ∈ deps a) j i

namespace Ordered

variable {deps : Nat → List Nat} {order : List Nat}

theorem nil : Ordered deps [] := by
  intro pre i post h
  simp at h

theorem snoc (h : Ordered deps order)
    (hi : ∀ j ∈ deps i, j ∈ order ∨ TransGen (fun a b => b ∈ deps a) j i) : Ordered deps (order ++ [i]) :=
  forall_split_snoc h hi

theorem sublist (h : Ordered deps order) (hi : i ∈ order) (hj : j ∈ deps i)
    (hn : ¬TransGen (fun a b => b ∈ deps a) j i) : [j, i].Sublist order := by
  obtain ⟨pre, post, rfl⟩ := List.append_of_mem hi
  have hpre := (h pre i post rfl j hj).resolve_right hn
  have htail : [i].Sublist (i :: post) := (List.nil_sublist post).cons_cons i
  exact (List.singleton_sublist.mpr hpre).append htail

end Ordered

/-- The files that are being searched lead to all those that are to be searched from within them. -/
def Leading (deps : Nat → List Nat) (n : Nat) (idle is : List Nat) : Prop :=
  ∀ k < n, k ∉ idle → ∀ i ∈ is, TransGen (fun a b => b ∈ deps a) k i

namespace Leading

variable {deps : Nat → List Nat} {idle is : List Nat} {n : Nat}

theorem tail (h : Leading deps n idle (i :: is)) : Leading deps n idle is :=
  fun k hk hn j hj => h k hk hn j (List.mem_cons_of_mem _ hj)

theorem enter (h : Leading deps n idle (i :: is)) : Leading deps n (idle.erase i) (deps i) := by
  -- being searched, now: the files that were, and `i`
  intro k hk hn j hj
  by_cases hki : k = i
  · exact hki ▸ .single hj
  · have hbusy : k ∉ idle := fun hmem => hn ((List.mem_erase_of_ne hki).mpr hmem)
    exact (h k hk hbusy i List.mem_cons_self).tail hj

theorem of_all_idle (is : List Nat) : Leading deps n (List.range n) is :=
  fun _ hk hn => absurd (List.mem_range.mpr hk) hn

end Leading

namespace Visits

variable {deps : Nat → List Nat} {idle is : List Nat} {p p' : Progress}

theorem order_prefix (h : Visits deps idle is p p') : p.order <+: p'.order := by
  induction h with
  | nil => exact List.prefix_refl _
  | finished _ _ ih => exact ih
  | cycle _ _ _ ih => exact ih
  | enter _ _ _ _ ihq ih => exact (ihq.trans (List.prefix_append _ _)).trans ih

theorem mem_or_mem_of_order (h : Visits deps idle is p p') (hj : j ∈ p'.order) : j ∈ p.order ∨ j ∈ idle := by
  induction h with
  | nil => exact .inl hj
  | finished _ _ ih => exact ih hj
  | cycle _ _ _ ih => exact ih hj
  | enter _ hi _ _ ihq ih =>
    rcases ih hj with hj | hj
    · rcases List.mem_append.mp hj with hj | hj
      · exact (ihq hj).imp_right List.mem_of_mem_erase
      · exact .inr (List.mem_singleton.mp hj ▸ hi)
    · exact .inr hj

theorem nodup (h : Visits deps idle is p p') (hidle : idle.Nodup) (hp : p.order.Nodup) : p'.order.Nodup := by
  induction h with
  | nil => exact hp
  | finished _ _ ih => exact ih hidle hp
  | cycle _ _ _ ih => exact ih hidle hp
  | @enter idle i is p q p' ho hi hq _ ihq ih =>
    have hiq : i ∉ q.order := by
      intro hmem
      rcases hq.mem_or_mem_of_order hmem with h | h
      · exact ho h
      · exact hidle.not_mem_erase h
    refine ih hidle ?_
    exact List.nodup_append_comm.mp (List.nodup_cons.mpr ⟨hiq, ihq (hidle.erase i) hp⟩)

/-- Every file that could be entered is finished. -/
theorem mem_order (h : Visits deps idle is p p') (hj : j ∈ is) (hidle : j ∈ idle) : j ∈ p'.order := by
  induction h with
  | nil => cases hj
  | finished ho hv ih =>
    rcases List.mem_cons.mp hj with rfl | hj
    · exact hv.order_prefix.subset ho
    · exact ih hj hidle
  | cycle _ hi _ ih =>
    rcases List.mem_cons.mp hj with rfl | hj
    · exact absurd hidle hi
    · exact ih hj hidle
  | enter _ _ _ hv _ ih =>
    rcases List.mem_cons.mp hj with rfl | hj
    · exact hv.order_prefix.subset (by simp)
    · exact ih hj hidle

/-- If the files that are being searched lead to those that are to be searched, the order is kept. -/
theorem ordered {n : Nat} (hdeps : ∀ i, ∀ j ∈ deps i, j < n) (h : Visits deps idle is p p')
    (hlead : Leading deps n idle is) (hp : Ordered deps p.order) : Ordered deps p'.order := by
  induction h with
  | nil => exact hp
  | finished _ _ ih => exact ih hlead.tail hp
  | cycle _ _ _ ih => exact ih hlead.tail hp
  | @enter idle i is p q p' ho hi hq _ ihq ih =>
    refine ih hlead.tail ((ihq hlead.enter hp).snoc fun j hj => ?_)
    by_cases hjq : j ∈ q.order
    · exact .inl hjq
    · right
      by_cases hji : j = i
      · subst hji
        exact .single hj
      · refine hlead j (hdeps i j hj) (fun hmem => hjq ?_) i List.mem_cons_self
        exact hq.mem_order hj ((List.mem_erase_of_ne hji).mpr hmem)

end Visits

/-! ### The order of the files -/

theorem nodup_search (files : List DefinitionFile) : (search files).order.Nodup :=
  (visits_search files).nodup List.nodup_range List.nodup_nil

theorem mem_search_iff : i ∈ (search files).order ↔ i < files.length := by
  constructor
  · intro h
    rcases (visits_search files).mem_or_mem_of_order h with h | h
    · cases h
    · exact List.mem_range.mp h
  · intro h
    exact (visits_search files).mem_order (List.mem_range.mpr h) (List.mem_range.mpr h)

theorem perm_search (files : List DefinitionFile) : (search files).order.Perm (List.range files.length) :=
  (List.perm_ext_iff_of_nodup (nodup_search files) List.nodup_range).mpr fun i => by
    rw [mem_search_iff, List.mem_range]

theorem ordered_search (files : List DefinitionFile) : Ordered (dependencies files) (search files).order :=
  (visits_search files).ordered (fun _ _ => lt_length_of_mem_dependencies) (.of_all_idle _) .nil

theorem sublist_search (h : DependsOn files i j) (hn : ¬TransGen (DependsOn files) j i) :
    [j, i].Sublist (search files).order := by
  have hi : i < files.length := by
    obtain ⟨⟨f, hf, -⟩, -⟩ := h
    exact (List.getElem?_eq_some_iff.mp hf).1
  exact (ordered_search files).sublist (mem_search_iff.mpr hi) (mem_dependencies_iff.mpr h)
    (mem_dependencies_eq ▸ hn)

theorem map_some_arrange (files : List DefinitionFile) :
    (arrange files).map some = (search files).order.map (files[·]?) := by
  have hmap : ∀ order : List Nat, (∀ k ∈ order, k < files.length) →
      (order.filterMap (files[·]?)).map some = order.map (files[·]?) := by
    intro order ho
    induction order with
    | nil => rfl
    | cons k order ih =>
      have hk := List.getElem?_eq_getElem (ho k List.mem_cons_self)
      rw [List.filterMap_cons_some hk, List.map_cons, List.map_cons, hk,
        ih fun l hl => ho l (List.mem_cons_of_mem _ hl)]
  exact hmap _ fun k hk => mem_search_iff.mp hk

theorem filterMap_range (files : List DefinitionFile) :
    (List.range files.length).filterMap (files[·]?) = files := by
  have hmap : (List.range files.length).map (files[·]?) = files.map some :=
    List.ext_getElem (by simp) fun i h₁ h₂ => by simp
  calc (List.range files.length).filterMap (files[·]?)
      = ((List.range files.length).map (files[·]?)).filterMap id := by rw [List.filterMap_map]; rfl
    _ = (files.map some).filterMap id := by rw [hmap]
    _ = files := by rw [List.filterMap_map]; exact List.filterMap_some

theorem perm_arrange (files : List DefinitionFile) : (arrange files).Perm files := by
  rw [arrange]
  exact ((perm_search files).filterMap _).trans (List.Perm.of_eq (filterMap_range files))

/-- Dependencies come first. Every file has one place in the order, and where a file depends on another
that does not depend on it in turn, over any number of steps, the other one stands in front. -/
theorem dependencies_first (files : List DefinitionFile) :
    (search files).order.Perm (List.range files.length) ∧
    (arrange files).map some = (search files).order.map (files[·]?) ∧
    ∀ i j, DependsOn files i j → ¬TransGen (DependsOn files) j i → [j, i].Sublist (search files).order :=
  ⟨perm_search files, map_some_arrange files, fun _ _ h hn => sublist_search h hn⟩

/-- Two records that use each other, and a third one that comes before the one that uses it. -/
theorem dependencies_first_beside_cycle :
    let files : List DefinitionFile := [⟨"a", some "A", ["B"]⟩, ⟨"b", some "B", ["A", "C"]⟩, ⟨"c", some "C", []⟩]
    TransGen (DependsOn files) 0 0 ∧ DependsOn files 1 2 ∧ [2, 1].Sublist (search files).order := by
  intro files
  have h01 : DependsOn files 0 1 := mem_dependencies_iff.mp (by decide)
  have h10 : DependsOn files 1 0 := mem_dependencies_iff.mp (by decide)
  have h12 : DependsOn files 1 2 := mem_dependencies_iff.mp (by decide)
  have hback : ¬TransGen (DependsOn files) 2 1 := by
    intro h
    obtain ⟨k, hk, -⟩ := TransGen.head'_iff.mp h
    have hnil : dependencies files 2 = [] := by decide
    have hmem := mem_dependencies_iff.mpr hk
    rw [hnil] at hmem
    cases hmem
  exact ⟨.tail (.single h01) h10, h12, (dependencies_first files).2.2 1 2 h12 hback⟩

/-! ### Files without cycles -/

/-- Every type that is not built in is declared by a file in front of the one that uses it. -/
def DeclaredBefore (order : List DefinitionFile) : Prop :=
  ∀ pre file post, order = pre ++ file :: post →
    ∀ name ∈ file.memberTypes, primitiveSize? name = none → ∃ g ∈ pre, g.recordName = some name

theorem lastDeclaring_of_nodup (hd : (files.map DefinitionFile.recordName).Nodup) {g : DefinitionFile}
    (hj : files[j]? = some g) (hg : g.recordName = some name) : LastDeclaring files name j := by
  have hname : (files.map DefinitionFile.recordName)[j]? = some (some name) := by
    rw [List.getElem?_map, hj, Option.map_some, hg]
  have hlt : j < (files.map DefinitionFile.recordName).length := (List.getElem?_eq_some_iff.mp hname).1
  refine ⟨by rw [hj]; exact hg, fun k hk he => ?_⟩
  obtain ⟨g', hk', hg'⟩ := Option.bind_eq_some_iff.mp he
  have hjk : (files.map DefinitionFile.recordName)[j]? = (files.map DefinitionFile.recordName)[k]? := by
    rw [hname, List.getElem?_map, hk', Option.map_some, hg']
  exact absurd ((List.getElem?_inj hlt hd).mp hjk) (Nat.ne_of_lt hk)

theorem declaredBefore_arrange (hd : (files.map DefinitionFile.recordName).Nodup)
    (ht : ∀ f ∈ files, ∀ name ∈ f.memberTypes,
      primitiveSize? name ≠ none ∨ ∃ g ∈ files, g.recordName = some name)
    (hc : ∀ i, ¬TransGen (Uses files) i i) : DeclaredBefore (arrange files) := by
  intro pre file post he name hname hp
  -- the positions that belong to the two parts of the order
  have hmap := map_some_arrange files
  rw [he, List.map_append, List.map_cons] at hmap
  obtain ⟨front, back, horder, hfront, hback⟩ := List.map_eq_append_iff.mp hmap.symm
  obtain ⟨i, back', rfl, hi, -⟩ := List.map_eq_cons_iff.mp hback
  have hfile : file ∈ files := List.mem_of_getElem? hi
  obtain ⟨g, hg, hgname⟩ := (ht file hfile name hname).resolve_left (by simp [hp])
  obtain ⟨j, hj⟩ := List.getElem?_of_mem hg
  have huses : Uses files i j := ⟨file, hi, name, hname, lastDeclaring_of_nodup hd hj hgname⟩
  have hdep : DependsOn files i j := ⟨huses, fun hij => hc i (by rw [hij] at huses; exact .single huses)⟩
  have hno : ¬TransGen (fun a b => b ∈ dependencies files a) j i := by
    intro hpath
    have hpath' : TransGen (Uses files) j i :=
      TransGen.mono (fun _ _ hab => (mem_dependencies_iff.mp hab).1) j i hpath
    exact hc i (.head huses hpath')
  have hmem := (ordered_search files front i back' horder j (mem_dependencies_iff.mpr hdep)).resolve_right hno
  refine ⟨g, ?_, hgname⟩
  have hsome : some g ∈ pre.map some := by
    rw [← hfront, ← hj]
    exact List.mem_map_of_mem hmem
  obtain ⟨g', hg', hgg⟩ := List.mem_map.mp hsome
  cases hgg
  exact hg'

end RecordLayout.DependencyOrder
