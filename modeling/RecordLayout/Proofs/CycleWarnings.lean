import RecordLayout.Proofs.DependencySearch

/-!
# Warnings about cycles

A file is warned about if the search meets it while it is being searched. What is being searched leads to
all that is looked at meanwhile, so such a file leads back to itself (`Visits.onCycle`). If no file is
met that way, the search finishes each file behind all those it depends on, and then nothing can lead
back (`Topological.not_transGen_self`).
-/

namespace RecordLayout.DependencyOrder

open Relation

variable {deps : Nat → List Nat} {order idle is : List Nat} {p p' : Progress} {i j n : Nat}

/-- Each file stands behind all those it depends on. -/
def Topological (deps : Nat → List Nat) (order : List Nat) : Prop :=
  ∀ pre i post, order = pre ++ i :: post → ∀ j ∈ deps i, j ∈ pre

namespace Topological

theorem nil : Topological deps [] := by
  intro pre i post h
  simp at h

theorem snoc (h : Topological deps order) (hi : ∀ j ∈ deps i, j ∈ order) : Topological deps (order ++ [i]) :=
  forall_split_snoc h hi

theorem mem_of_transGen (h : Topological deps order) (hij : TransGen (fun a b => b ∈ deps a) i j)
    {pre post : List Nat} (he : order = pre ++ i :: post) : j ∈ pre := by
  induction hij using TransGen.head_induction_on generalizing pre post with
  | single hij => exact h pre _ post he j hij
  | @head i k hik _ ih =>
    obtain ⟨front, back, rfl⟩ := List.append_of_mem (h pre i post he k hik)
    have hk : order = front ++ k :: (back ++ i :: post) := by
      rw [he, List.append_assoc, List.cons_append]
    exact List.mem_append_left _ (ih hk)

theorem not_transGen_self (h : Topological deps order) (hnodup : order.Nodup) (hi : i ∈ order) :
    ¬TransGen (fun a b => b ∈ deps a) i i := by
  intro hcycle
  obtain ⟨pre, post, rfl⟩ := List.append_of_mem hi
  exact List.disjoint_of_nodup_append hnodup (h.mem_of_transGen hcycle rfl) List.mem_cons_self

end Topological

namespace Visits

theorem onCycle (hdeps : ∀ i, ∀ j ∈ deps i, j < n) (h : Visits deps idle is p p') (his : ∀ i ∈ is, i < n)
    (hlead : Leading deps n idle is) (hp : ∀ i ∈ p.cycles, TransGen (fun a b => b ∈ deps a) i i) :
    ∀ i ∈ p'.cycles, TransGen (fun a b => b ∈ deps a) i i := by
  induction h with
  | nil => exact hp
  | finished _ _ ih => exact ih (List.forall_mem_cons.mp his).2 hlead.tail hp
  | @cycle idle i is p p' _ hi _ ih =>
    refine ih (List.forall_mem_cons.mp his).2 hlead.tail fun k hk => ?_
    rcases List.mem_append.mp hk with hk | hk
    · exact hp k hk
    · rw [List.mem_singleton.mp hk]
      exact hlead i (his i List.mem_cons_self) hi i List.mem_cons_self
  | @enter idle i is p q p' _ _ _ _ ihq ih =>
    exact ih (List.forall_mem_cons.mp his).2 hlead.tail (ihq (hdeps i) hlead.enter hp)

theorem cycles_prefix (h : Visits deps idle is p p') : p.cycles <+: p'.cycles := by
  induction h with
  | nil => exact List.prefix_refl _
  | finished _ _ ih => exact ih
  | cycle _ _ _ ih => exact (List.prefix_append _ _).trans ih
  | enter _ _ _ _ ihq ih => exact ihq.trans ih

theorem cycles_eq_nil (h : Visits deps idle is p p') (hc : p'.cycles = []) : p.cycles = [] :=
  List.prefix_nil.mp (hc ▸ h.cycles_prefix)

/-- A search that meets no file which is being searched finishes all files that it looks at. -/
theorem mem_order_of_no_cycle (h : Visits deps idle is p p') (hc : p'.cycles = []) (hj : j ∈ is) :
    j ∈ p'.order := by
  induction h with
  | nil => cases hj
  | finished ho hv ih =>
    rcases List.mem_cons.mp hj with rfl | hj
    · exact hv.order_prefix.subset ho
    · exact ih hc hj
  | cycle _ _ hv _ =>
    have hnil := hv.cycles_eq_nil hc
    simp at hnil
  | enter _ _ _ hv _ ih =>
    rcases List.mem_cons.mp hj with rfl | hj
    · exact hv.order_prefix.subset (by simp)
    · exact ih hc hj

theorem topological (h : Visits deps idle is p p') (hc : p'.cycles = []) (hp : Topological deps p.order) :
    Topological deps p'.order := by
  induction h with
  | nil => exact hp
  | finished _ _ ih => exact ih hc hp
  | cycle _ _ _ ih => exact ih hc hp
  | enter _ _ hq hv ihq ih =>
    have hcq := hv.cycles_eq_nil hc
    exact ih hc ((ihq hcq hp).snoc fun j hj => hq.mem_order_of_no_cycle hcq hj)

end Visits

variable {files : List DefinitionFile}

theorem transGen_of_mem_cycles (hi : i ∈ (search files).cycles) : TransGen (DependsOn files) i i := by
  rw [← mem_dependencies_eq]
  exact (visits_search files).onCycle (fun _ _ => lt_length_of_mem_dependencies) (fun _ => List.mem_range.mp)
    (.of_all_idle _) (fun _ hk => by cases hk) i hi

theorem not_transGen_of_no_cycle (hc : (search files).cycles = []) (i : Nat) :
    ¬TransGen (DependsOn files) i i := by
  intro hcycle
  have hi : i < files.length := by
    obtain ⟨k, -, hki⟩ := TransGen.tail'_iff.mp hcycle
    exact hki.lt_length
  rw [← mem_dependencies_eq] at hcycle
  have htop := (visits_search files).topological hc .nil
  exact htop.not_transGen_self (nodup_search files) (mem_search_iff.mpr hi) hcycle

/-- The warning is about the file at `i`, which lies on a cycle. -/
def WarnsOf (files : List DefinitionFile) (i : Nat) (warning : Event) : Prop :=
  TransGen (DependsOn files) i i ∧
    ∃ f, files[i]? = some f ∧ warning = .log ⟨.warn, .directory, cycleMessage f⟩

theorem forall₂_warnings (files : List DefinitionFile) :
    List.Forall₂ (WarnsOf files) (search files).cycles (warnings files) := by
  have hall : ∀ cycles : List Nat, (∀ i ∈ cycles, TransGen (DependsOn files) i i) →
      List.Forall₂ (WarnsOf files) cycles
        ((cycles.filterMap (files[·]?)).map fun f => .log ⟨.warn, .directory, cycleMessage f⟩) := by
    intro cycles hcycles
    induction cycles with
    | nil => exact .nil
    | cons i cycles ih =>
      rw [List.forall_mem_cons] at hcycles
      obtain ⟨k, ⟨⟨f, hf, -⟩, -⟩, -⟩ := TransGen.head'_iff.mp hcycles.1
      rw [List.filterMap_cons_some hf, List.map_cons]
      exact .cons ⟨hcycles.1, f, hf, rfl⟩ (ih hcycles.2)
  exact hall _ fun i hi => transGen_of_mem_cycles hi

/-- Cycle warnings are sound and complete. There is one if and only if there is a cycle, and every
warning is about a file that lies on one. -/
theorem warnings_exactly_on_cycles (files : List DefinitionFile) :
    (warnings files ≠ [] ↔ ∃ i, TransGen (DependsOn files) i i) ∧
    List.Forall₂ (WarnsOf files) (search files).cycles (warnings files) := by
  have hwarn := forall₂_warnings files
  have hnil : warnings files = [] ↔ (search files).cycles = [] := by
    rw [← List.length_eq_zero_iff, ← hwarn.length_eq, List.length_eq_zero_iff]
  refine ⟨⟨fun hne => ?_, ?_⟩, hwarn⟩
  · obtain ⟨i, hi⟩ := List.exists_mem_of_ne_nil _ fun hc => hne (hnil.mpr hc)
    exact ⟨i, transGen_of_mem_cycles hi⟩
  · rintro ⟨i, hi⟩ hw
    exact not_transGen_of_no_cycle (hnil.mp hw) i hi

end RecordLayout.DependencyOrder
