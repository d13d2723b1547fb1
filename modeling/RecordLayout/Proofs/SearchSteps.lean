import RecordLayout.Proofs.DependencySearch
import Mathlib

/-!
# The search, step by step

The search enters a file from within another one. Here the files that are being searched are kept in a
list, and a step looks at one file or finishes one (`Snapshot.next?`). Nothing in a step bounds how many
there are, and dependencies may lead round in circles. The steps come to an end all the same: every file
is entered once and finished once, and each of its dependencies is looked at once (`steps_search`).
-/

namespace RecordLayout.DependencyOrder

/-- A search between two steps. -/
structure Snapshot where
  /-- The files to look at next. -/
  todo : List Nat
  /-- The files that are being searched, innermost first, and what is to be looked at behind each. -/
  busy : List (Nat × List Nat)
  progress : Progress

namespace Snapshot

/-- Looks at the next file, or finishes the innermost one. -/
def next? (deps : Nat → List Nat) : Snapshot → Option Snapshot
  | ⟨j :: todo, busy, p⟩ =>
    if j ∈ p.order then some ⟨todo, busy, p⟩
    else if j ∈ busy.map Prod.fst then some ⟨todo, busy, { p with cycles := p.cycles ++ [j] }⟩
    else some ⟨deps j, (j, todo) :: busy, p⟩
  | ⟨[], (i, todo) :: busy, p⟩ => some ⟨todo, busy, { p with order := p.order ++ [i] }⟩
  | ⟨[], [], _⟩ => none

variable {deps : Nat → List Nat} {j : Nat} {todo : List Nat} {busy : List (Nat × List Nat)} {p : Progress}

theorem next?_finished (ho : j ∈ p.order) : next? deps ⟨j :: todo, busy, p⟩ = some ⟨todo, busy, p⟩ := by
  rw [next?, if_pos ho]

theorem next?_cycle (ho : j ∉ p.order) (hb : j ∈ busy.map Prod.fst) :
    next? deps ⟨j :: todo, busy, p⟩ = some ⟨todo, busy, { p with cycles := p.cycles ++ [j] }⟩ := by
  rw [next?, if_neg ho, if_pos hb]

theorem next?_enter (ho : j ∉ p.order) (hb : j ∉ busy.map Prod.fst) :
    next? deps ⟨j :: todo, busy, p⟩ = some ⟨deps j, (j, todo) :: busy, p⟩ := by
  rw [next?, if_neg ho, if_neg hb]

theorem next?_finish (deps : Nat → List Nat) (i : Nat) (todo : List Nat) (busy : List (Nat × List Nat))
    (p : Progress) :
    next? deps ⟨[], (i, todo) :: busy, p⟩ = some ⟨todo, busy, { p with order := p.order ++ [i] }⟩ := rfl

end Snapshot

/-- So many steps lead from one moment of the search to another. -/
inductive Steps (deps : Nat → List Nat) : Nat → Snapshot → Snapshot → Prop
  | refl {s} : Steps deps 0 s s
  | head {n s t u} : s.next? deps = some t → Steps deps n t u → Steps deps (n + 1) s u

variable {deps : Nat → List Nat} {idle is : List Nat} {p p' : Progress}

theorem Steps.trans {m n : Nat} {s t u : Snapshot} (hst : Steps deps m s t) (htu : Steps deps n t u) :
    Steps deps (m + n) s u := by
  induction hst with
  | refl => rwa [Nat.zero_add]
  | head hs _ ih =>
    rw [Nat.add_right_comm]
    exact .head hs (ih htu)

theorem Steps.look {m n : Nat} {s t u : Snapshot} (hs : s.next? deps = some t) (h : Steps deps (m + n) t u) :
    Steps deps (m + 1 + n) s u := by
  rw [Nat.add_right_comm]
  exact .head hs h

/-- The steps for one file: its dependencies are looked at, and it is finished. -/
def cost (deps : Nat → List Nat) (i : Nat) : Nat := (deps i).length + 1

/-- Searching files is looking at each of them, and taking the steps for those that are finished. -/
theorem Visits.steps {n : Nat} (hdeps : ∀ i, ∀ j ∈ deps i, j < n) (h : Visits deps idle is p p')
    (hnodup : idle.Nodup) (his : ∀ i ∈ is, i < n) {busy : List (Nat × List Nat)}
    (hbusy : ∀ k < n, k ∈ idle ↔ k ∉ busy.map Prod.fst) (todo : List Nat) :
    ∃ new, p'.order = p.order ++ new ∧
      Steps deps (is.length + (new.map (cost deps)).sum) ⟨is ++ todo, busy, p⟩ ⟨todo, busy, p'⟩ := by
  induction h generalizing busy todo with
  | nil => exact ⟨[], by simp, .refl⟩
  | finished ho _ ih =>
    obtain ⟨new, hnew, hsteps⟩ := ih hnodup (List.forall_mem_cons.mp his).2 hbusy todo
    exact ⟨new, hnew, .look (Snapshot.next?_finished ho) hsteps⟩
  | @cycle idle i is p p' ho hi _ ih =>
    rw [List.forall_mem_cons] at his
    obtain ⟨new, hnew, hsteps⟩ := ih hnodup his.2 hbusy todo
    have hmem : i ∈ busy.map Prod.fst := by
      by_contra hn
      exact hi ((hbusy i his.1).mpr hn)
    exact ⟨new, hnew, .look (Snapshot.next?_cycle ho hmem) hsteps⟩
  | @enter idle i is p q p' ho hi _ _ ihq ih =>
    rw [List.forall_mem_cons] at his
    have hnot : i ∉ busy.map Prod.fst := (hbusy i his.1).mp hi
    have hbusy' : ∀ k < n, k ∈ idle.erase i ↔ k ∉ ((i, is ++ todo) :: busy).map Prod.fst := by
      intro k hk
      rw [hnodup.mem_erase_iff, hbusy k hk, List.map_cons, List.mem_cons, not_or]
    -- the dependencies of `i`, then `i` itself, then the files behind it
    obtain ⟨inner, hinner, hdown⟩ := ihq (hnodup.erase i) (hdeps i) hbusy' []
    obtain ⟨new, hnew, hsteps⟩ := ih hnodup his.2 hbusy todo
    rw [List.append_nil] at hdown
    refine ⟨inner ++ i :: new, by rw [hnew, hinner]; simp, ?_⟩
    have hcount : (i :: is).length + ((inner ++ i :: new).map (cost deps)).sum =
        (deps i).length + (inner.map (cost deps)).sum + (is.length + (new.map (cost deps)).sum + 1) + 1 := by
      simp only [List.length_cons, List.map_append, List.map_cons, List.sum_append, List.sum_cons, cost]
      omega
    rw [hcount]
    exact .head (Snapshot.next?_enter ho hnot) (hdown.trans (.head (Snapshot.next?_finish _ _ _ _ _) hsteps))

variable (files : List DefinitionFile)

/-- The number of dependencies of all files. -/
def dependencyCount : Nat := ((List.range files.length).map fun i => (dependencies files i).length).sum

/-- The search before its first step. -/
def Snapshot.start : Snapshot := ⟨List.range files.length, [], ⟨[], []⟩⟩

theorem steps_search :
    Steps (dependencies files) (2 * files.length + dependencyCount files) (.start files) ⟨[], [], search files⟩ := by
  have hidle : ∀ k < files.length, k ∈ List.range files.length ↔ k ∉ ([] : List (Nat × List Nat)).map Prod.fst :=
    fun k hk => by simpa using hk
  obtain ⟨new, hnew, hsteps⟩ := (visits_search files).steps (fun _ _ => lt_length_of_mem_dependencies)
    List.nodup_range (fun _ => List.mem_range.mp) hidle []
  have hall : new.Perm (List.range files.length) := by
    rw [List.nil_append] at hnew
    exact hnew ▸ perm_search files
  have hcount : (new.map (cost (dependencies files))).sum = dependencyCount files + files.length := by
    have hcost : cost (dependencies files) = fun i => (dependencies files i).length + 1 := rfl
    rw [(hall.map _).sum_eq, hcost, List.sum_map_add, dependencyCount]
    simp
  rw [hcount, List.length_range, List.append_nil] at hsteps
  have htwice : 2 * files.length + dependencyCount files =
      files.length + (dependencyCount files + files.length) := by omega
  rw [htwice]
  exact hsteps

/-- Ordering loses and duplicates nothing. However the files depend on each other, the steps of the search
come to an end, with the result of the search, and the order that they leave has every file once. -/
theorem search_ends_with_permutation :
    (∃ last, Steps (dependencies files) (2 * files.length + dependencyCount files) (.start files) last ∧
      last.next? (dependencies files) = none ∧ last.progress = search files) ∧
    (search files).order.Perm (List.range files.length) ∧ (arrange files).Perm files :=
  ⟨⟨_, steps_search files, rfl, rfl⟩, perm_search files, perm_arrange files⟩

end RecordLayout.DependencyOrder
