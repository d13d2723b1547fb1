import RecordLayout.Proofs.DependencySearch
import Mathlib.Data.List.Sort

/-!
# Files that keep their places

A file is moved forward only if one in front of it needs it. When the search has gone through the files
up to one, it has finished that one and nothing but what these files lead to (`Visits.reachable`). So
what they do not lead to comes later, as it did before (`sublist_of_not_reachable`).
-/

namespace RecordLayout.DependencyOrder

open Relation

variable {files : List DefinitionFile} {i j : Nat}

/-- What is finished was finished before, or is one of the files searched, or something they lead to. -/
theorem Visits.reachable {deps : Nat → List Nat} {idle is : List Nat} {p p' : Progress}
    (h : Visits deps idle is p p') (hj : j ∈ p'.order) :
    j ∈ p.order ∨ ∃ i ∈ is, ReflTransGen (fun a b => b ∈ deps a) i j := by
  induction h with
  | nil => exact .inl hj
  | finished _ _ ih | cycle _ _ _ ih =>
    rcases ih hj with hj | ⟨i, hi, hij⟩
    · exact .inl hj
    · exact .inr ⟨i, List.mem_cons_of_mem _ hi, hij⟩
  | @enter idle i is p q p' _ _ _ _ ihq ih =>
    rcases ih hj with hj | ⟨k, hk, hkj⟩
    · rcases List.mem_append.mp hj with hj | hj
      · rcases ihq hj with hj | ⟨k, hk, hkj⟩
        · exact .inl hj
        · exact .inr ⟨i, List.mem_cons_self, .head hk hkj⟩
      · rw [List.mem_singleton.mp hj]
        exact .inr ⟨i, List.mem_cons_self, .refl⟩
    · exact .inr ⟨k, List.mem_cons_of_mem _ hk, hkj⟩

theorem exists_visits_through (hi : i < files.length) :
    ∃ q rest, Visits (dependencies files) (List.range files.length) (List.range (i + 1)) ⟨[], []⟩ q ∧
      Visits (dependencies files) (List.range files.length) rest q (search files) := by
  obtain ⟨m, hm⟩ := Nat.exists_eq_add_of_le hi
  have hrange : List.range files.length = List.range (i + 1) ++ (List.range m).map (i + 1 + ·) := by
    rw [hm, List.range_add]
  refine ⟨_, (List.range m).map (i + 1 + ·), visits_foldl _ _ _ _, ?_⟩
  have hsearch := visits_foldl (dependencies files) (List.range files.length) ((List.range m).map (i + 1 + ·))
    ((List.range (i + 1)).foldl (fun p k => visit (dependencies files) (List.range files.length) k p) ⟨[], []⟩)
  rw [← List.foldl_append, ← hrange] at hsearch
  exact hsearch

theorem sublist_of_not_reachable (hij : i < j) (hj : j < files.length)
    (hn : ∀ k ≤ i, ¬TransGen (DependsOn files) k j) : [i, j].Sublist (search files).order := by
  have hlt : i < files.length := hij.trans hj
  obtain ⟨q, rest, hq, hrest⟩ := exists_visits_through hlt
  have hiq : i ∈ q.order := hq.mem_order (List.mem_range.mpr i.lt_succ_self) (List.mem_range.mpr hlt)
  have hjq : j ∉ q.order := by
    intro hmem
    rcases hq.reachable hmem with hmem | ⟨k, hk, hkj⟩
    · cases hmem
    · have hki : k ≤ i := Nat.lt_succ_iff.mp (List.mem_range.mp hk)
      rw [mem_dependencies_eq] at hkj
      rcases reflTransGen_iff_eq_or_transGen.mp hkj with heq | hkj
      · omega
      · exact hn k hki hkj
  obtain ⟨later, hlater⟩ := hrest.order_prefix
  have hjl : j ∈ later := by
    have hmem : j ∈ q.order ++ later := hlater ▸ mem_search_iff.mpr hj
    exact (List.mem_append.mp hmem).resolve_left hjq
  rw [← hlater]
  exact (List.singleton_sublist.mpr hiq).append (List.singleton_sublist.mpr hjl)

theorem not_sublist_of_sublist {order : List Nat} (hnodup : order.Nodup) (hij : [i, j].Sublist order) :
    ¬[j, i].Sublist order := by
  intro hji
  obtain ⟨r₁, r₂, rfl, hi, hj⟩ := List.cons_sublist_iff.mp hij
  obtain ⟨s₁, s₂, hs, hj', hi'⟩ := List.cons_sublist_iff.mp hji
  rw [List.singleton_sublist] at hj hi'
  -- the two cuts, one behind `i` and one behind `j`: one of them comes first
  rcases List.append_eq_append_iff.mp hs with ⟨t, rfl, rfl⟩ | ⟨t, rfl, rfl⟩
  · exact List.disjoint_of_nodup_append hnodup hi (List.mem_append_right _ hi')
  · exact List.disjoint_of_nodup_append hnodup (List.mem_append_left _ hj') hj

/-- Without a file that is needed in front of it, no file is moved. -/
theorem order_eq_range (h : ∀ i j, i < j → ¬TransGen (DependsOn files) i j) :
    (search files).order = List.range files.length := by
  have hsorted : (search files).order.Pairwise (· < ·) := by
    rw [List.pairwise_iff_forall_sublist]
    intro a b hab
    have hne : a ≠ b := by
      have hnodup := (nodup_search files).sublist hab
      simpa using hnodup
    rcases Nat.lt_or_gt_of_ne hne with hlt | hgt
    · exact hlt
    · have ha : a < files.length := mem_search_iff.mp (hab.subset List.mem_cons_self)
      have hba := sublist_of_not_reachable hgt ha fun k hk => h k a (by omega)
      exact absurd hab (not_sublist_of_sublist (nodup_search files) hba)
  exact (perm_search files).eq_of_pairwise (fun a b _ _ hab hba => absurd hab (by omega)) hsorted
    List.pairwise_lt_range

theorem arrange_eq_self (h : ∀ i j, i < j → ¬TransGen (DependsOn files) i j) : arrange files = files := by
  rw [arrange, order_eq_range h, filterMap_range]

/-- Ordering moves a file forward only when it must. A file stays in front of every later one that
neither it nor any file in front of it leads to. If that is so of all files, all stay where they are. -/
theorem order_keeps_places (files : List DefinitionFile) :
    (search files).order.Perm (List.range files.length) ∧
    (arrange files).map some = (search files).order.map (files[·]?) ∧
    (∀ i j, i < j → j < files.length → (∀ k ≤ i, ¬TransGen (DependsOn files) k j) →
      [i, j].Sublist (search files).order) ∧
    ((∀ i j, i < j → ¬TransGen (DependsOn files) i j) → arrange files = files) :=
  ⟨perm_search files, map_some_arrange files, fun _ _ hij hj hn => sublist_of_not_reachable hij hj hn,
    arrange_eq_self⟩

/-- Two records that use each other do not move the one behind them, and a record that uses itself and
one in front of it stays where it is. -/
theorem order_keeps_places_beside_cycle :
    let around : List DefinitionFile := [⟨"a", some "A", ["B"]⟩, ⟨"b", some "B", ["A"]⟩, ⟨"c", some "C", []⟩]
    let behind : List DefinitionFile := [⟨"b", some "B", []⟩, ⟨"a", some "A", ["B", "A"]⟩]
    DependsOn around 0 1 ∧ DependsOn around 1 0 ∧ [1, 2].Sublist (search around).order ∧
      DependsOn behind 1 0 ∧ arrange behind = behind := by
  intro around behind
  have haround : ∀ k l, k ≤ 1 → TransGen (DependsOn around) k l → l ≤ 1 := by
    intro k l hk hkl
    have hstep : ∀ a ≤ 1, ∀ b, DependsOn around a b → b ≤ 1 := by
      intro a ha b hab
      have hmem := mem_dependencies_iff.mpr hab
      have hdeps : ∀ a ≤ 1, ∀ b ∈ dependencies around a, b ≤ 1 := by decide
      exact hdeps a ha b hmem
    induction hkl with
    | single h => exact hstep k hk _ h
    | tail _ h ih => exact hstep _ ih _ h
  have hbehind : ∀ k l, TransGen (DependsOn behind) k l → l < k := by
    intro k l hkl
    have hstep : ∀ a b, DependsOn behind a b → b < a := by
      intro a b hab
      have hdeps : ∀ a < 2, ∀ b ∈ dependencies behind a, b < a := by decide
      obtain ⟨f, hf, -⟩ := hab.1
      exact hdeps a (List.getElem?_eq_some_iff.mp hf).1 b (mem_dependencies_iff.mpr hab)
    induction hkl with
    | single h => exact hstep _ _ h
    | tail _ h ih => exact (hstep _ _ h).trans ih
  refine ⟨mem_dependencies_iff.mp (by decide), mem_dependencies_iff.mp (by decide), ?_,
    mem_dependencies_iff.mp (by decide), ?_⟩
  · refine (order_keeps_places around).2.2.1 1 2 (by decide) (by decide) fun k hk hpath => ?_
    exact absurd (haround k 2 hk hpath) (by decide)
  · refine (order_keeps_places behind).2.2.2 fun k l hkl hpath => ?_
    exact absurd (hbehind k l hpath) (by omega)

end RecordLayout.DependencyOrder
