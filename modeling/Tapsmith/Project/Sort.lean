import Mathlib.Logic.Function.Basic
import Mathlib.Data.List.Perm.Subperm
import Mathlib.Data.Int.Init
import Mathlib.Tactic.Ring
import Tapsmith.Lib.OrderedSet
import Tapsmith.Project.Config

namespace Tapsmith.Project

open Lib.Graph Lib.OrderedSet

/-!
# Projects — execution waves

`topologicalSort` counts the entries of every dependency list and takes one off for every
project that is done and occurs in the list.  The two counts agree where no list repeats an
entry, and validation does not look for repetitions.

* `degree_eq_zero_iff` — a count comes to zero exactly where the list has no repetition and
  everything in it is done;
* `sortWaves_nodup` — so a project with a repeated dependency is never in a wave;
* `sortWaves_layers` — and without repetitions wave `k` holds the projects of depth `k`;
* `topologicalSort_sorts_iff` — an accepted list sorts if and only if no dependency list has a
  repeated entry.
-/

/-! ### The sort -/

/-- `inDegree.set(name, (inDegree.get(name) ?? 0) + n)`. -/
def bump (inDegree : String → ℤ) (name : String) (n : ℤ) : String → ℤ :=
  Function.update inDegree name (inDegree name + n)

/-- One more for every entry of every dependency list. -/
def startDegrees (projects : List ResolvedProject) : String → ℤ :=
  projects.foldl (fun d p => p.dependencies.foldl (fun d _ => bump d p.name 1) d) fun _ => 0

/-- One less for every project that depends on `done`. -/
def decreaseDependents (projects : List ResolvedProject) (inDegree : String → ℤ)
    (done : ResolvedProject) : String → ℤ :=
  projects.foldl
    (fun d other => if done.name ∈ other.dependencies then bump d other.name (-1) else d) inDegree

/-- `byName.get(name)`. -/
def byName (projects : List ResolvedProject) (name : String) : Option ResolvedProject :=
  projects.reverse.find? fun p => p.name = name

/-- The projects whose count is zero, in the order of `remaining`. -/
def nextWave (projects : List ResolvedProject) (remaining : List String) (inDegree : String → ℤ) :
    List ResolvedProject :=
  (remaining.filter fun name => inDegree name = 0).filterMap (byName projects)

theorem byName_some {projects : List ResolvedProject} {name : String} {p : ResolvedProject}
    (h : byName projects name = some p) : p ∈ projects ∧ p.name = name := by
  have hmem := List.mem_of_find?_eq_some h
  have hname := List.find?_some h
  exact ⟨List.mem_reverse.mp hmem, of_decide_eq_true hname⟩

theorem mem_nextWave {projects : List ResolvedProject} {remaining : List String}
    {inDegree : String → ℤ} {p : ResolvedProject} (h : p ∈ nextWave projects remaining inDegree) :
    p ∈ projects ∧ p.name ∈ remaining ∧ inDegree p.name = 0 := by
  obtain ⟨name, hname, hp⟩ := List.mem_filterMap.mp h
  obtain ⟨hmem, rfl⟩ := byName_some hp
  obtain ⟨hrem, hzero⟩ := List.mem_filter.mp hname
  exact ⟨hmem, hrem, of_decide_eq_true hzero⟩

/-- `remaining.delete(p.name)` for every project of the wave. -/
def deleteWave (remaining : List String) (wave : List ResolvedProject) : List String :=
  remaining.filter fun name => name ∉ wave.map ResolvedProject.name

/-- The `while` loop. -/
def sortWaves (projects : List ResolvedProject) (remaining : List String) (inDegree : String → ℤ) :
    Except String (List (List ResolvedProject)) :=
  if remaining = [] then .ok []
  else
    let wave := nextWave projects remaining inDegree
    if _hwave : wave = [] then
      .error ("Circular dependency detected among projects: " ++ ", ".intercalate remaining)
    else
      (sortWaves projects (deleteWave remaining wave)
        (wave.foldl (decreaseDependents projects) inDegree)).map (wave :: ·)
termination_by remaining.length
decreasing_by
  obtain ⟨p, hp⟩ := List.exists_mem_of_ne_nil _ _hwave
  rw [deleteWave, List.length_filter_lt_length_iff_exists]
  refine ⟨p.name, (mem_nextWave hp).2.1, ?_⟩
  simpa using ⟨p, hp, rfl⟩

def topologicalSort (projects : List ResolvedProject) :
    Except String (List (List ResolvedProject)) :=
  sortWaves projects (addAll [] (projects.map ResolvedProject.name)) (startDegrees projects)

/-! ### What sorting means -/

/-- The project of the first name depends on the second name. -/
def Needs (projects : List ResolvedProject) (a b : String) : Prop :=
  ∃ p ∈ projects, p.name = a ∧ b ∈ p.dependencies

/-- The projects sort: there is no error, every project is in the waves once, behind its
    dependencies, and as early as the longest chain of dependencies below it allows. -/
def Sorts (projects : List ResolvedProject) : Prop :=
  ∃ waves, topologicalSort projects = .ok waves ∧ waves.flatten.Perm projects ∧
    ∀ k wave, waves[k]? = some wave → ∀ p ∈ wave,
      (∀ dep ∈ p.dependencies, ∃ j < k, ∃ earlier, waves[j]? = some earlier ∧
        dep ∈ earlier.map ResolvedProject.name) ∧
      IsGreatest {n | Chain (Needs projects) n p.name} k

/-! ### The counts -/

section Degrees

variable {projects : List ResolvedProject} {d : String → ℤ} {name : String} {n m : ℤ}

@[simp] theorem bump_self : bump d name n name = d name + n :=
  Function.update_self ..

theorem bump_of_ne {other : String} (h : other ≠ name) : bump d name n other = d other :=
  Function.update_of_ne h ..

theorem bump_zero : bump d name 0 = d := by
  rw [bump, add_zero, Function.update_eq_self]

theorem bump_bump : bump (bump d name n) name m = bump d name (n + m) := by
  ext other
  by_cases h : other = name
  · subst h
    simp [add_assoc]
  · simp [bump_of_ne h]

/-- One addition for each project, where the names are distinct. -/
theorem foldl_bump (hnodup : (projects.map ResolvedProject.name).Nodup) (g : ResolvedProject → ℤ)
    {p : ResolvedProject} (hp : p ∈ projects) :
    (projects.foldl (fun d q => bump d q.name (g q)) d) p.name = d p.name + g p := by
  have hother : ∀ (rest : List ResolvedProject) (d : String → ℤ),
      p.name ∉ rest.map ResolvedProject.name →
      (rest.foldl (fun d q => bump d q.name (g q)) d) p.name = d p.name := by
    intro rest
    induction rest with
    | nil => exact fun _ _ => rfl
    | cons q rest ih =>
      intro d hnot
      rw [List.map_cons, List.mem_cons, not_or] at hnot
      rw [List.foldl_cons, ih _ hnot.2, bump_of_ne hnot.1]
  induction projects generalizing d with
  | nil => exact absurd hp List.not_mem_nil
  | cons q rest ih =>
    rw [List.map_cons, List.nodup_cons] at hnodup
    rw [List.foldl_cons]
    rcases List.mem_cons.mp hp with rfl | hrest
    · rw [hother rest _ hnodup.1, bump_self]
    · have hne : p.name ≠ q.name := by
        intro heq
        exact hnodup.1 (heq ▸ List.mem_map_of_mem hrest)
      rw [ih hnodup.2 hrest, bump_of_ne hne]

theorem startDegrees_eq (hnodup : (projects.map ResolvedProject.name).Nodup) {p : ResolvedProject}
    (hp : p ∈ projects) : startDegrees projects p.name = p.dependencies.length := by
  have hentries : ∀ (deps : List String) (d : String → ℤ) (name : String),
      deps.foldl (fun d _ => bump d name 1) d = bump d name deps.length := by
    intro deps
    induction deps with
    | nil => exact fun d name => bump_zero.symm
    | cons dep deps ih =>
      intro d name
      rw [List.foldl_cons, ih, bump_bump, List.length_cons]
      push_cast
      rw [add_comm]
  unfold startDegrees
  simp only [hentries]
  rw [foldl_bump hnodup (fun q => q.dependencies.length) hp, zero_add]

theorem decreaseDependents_eq (hnodup : (projects.map ResolvedProject.name).Nodup)
    {p done : ResolvedProject} (hp : p ∈ projects) :
    decreaseDependents projects d done p.name =
      d p.name + if done.name ∈ p.dependencies then -1 else 0 := by
  have hform : decreaseDependents projects d done =
      projects.foldl
        (fun d q => bump d q.name (if done.name ∈ q.dependencies then -1 else 0)) d := by
    unfold decreaseDependents
    congr 1
    ext d q : 2
    split
    · rfl
    · rw [bump_zero]
  rw [hform, foldl_bump hnodup (fun q => if done.name ∈ q.dependencies then -1 else 0) hp]

/-- After a wave, a count is less by the number of dependencies the wave has done. -/
theorem foldl_decreaseDependents_eq (hnodup : (projects.map ResolvedProject.name).Nodup)
    {p : ResolvedProject} (hp : p ∈ projects) (wave : List ResolvedProject) :
    (wave.foldl (decreaseDependents projects) d) p.name =
      d p.name - ((wave.map ResolvedProject.name).filter (· ∈ p.dependencies)).length := by
  induction wave generalizing d with
  | nil => simp
  | cons done wave ih =>
    rw [List.foldl_cons, ih, decreaseDependents_eq hnodup hp, List.map_cons, List.filter_cons]
    by_cases hmem : done.name ∈ p.dependencies
    · rw [if_pos hmem, if_pos (decide_eq_true hmem), List.length_cons]
      push_cast
      ring
    · rw [if_neg hmem, if_neg (by simpa using hmem), add_zero]

/-- **The count.**  The entries of a list, less the done names that occur in it, come to zero
    exactly where the list repeats nothing and all of it is done. -/
theorem degree_eq_zero_iff {deps done : List String} (hdone : done.Nodup) :
    (deps.length : ℤ) - (done.filter (· ∈ deps)).length = 0 ↔
      deps.Nodup ∧ ∀ dep ∈ deps, dep ∈ done := by
  have hfilter : (done.filter (· ∈ deps)).Nodup := hdone.filter _
  have hsub : done.filter (· ∈ deps) ⊆ deps := by
    intro a ha
    exact of_decide_eq_true (List.mem_filter.mp ha).2
  constructor
  · intro h
    have hperm : (done.filter (· ∈ deps)).Perm deps :=
      (hfilter.subperm hsub).perm_of_length_le (by omega)
    refine ⟨hperm.nodup_iff.mp hfilter, ?_⟩
    intro dep hdep
    exact (List.mem_filter.mp (hperm.mem_iff.mpr hdep)).1
  · rintro ⟨hdeps, hall⟩
    have hperm : (done.filter (· ∈ deps)).Perm deps := by
      rw [List.perm_ext_iff_of_nodup hfilter hdeps]
      intro a
      rw [List.mem_filter, decide_eq_true_iff]
      exact ⟨fun h => h.2, fun h => ⟨hall a h, h⟩⟩
    rw [hperm.length_eq, sub_self]

end Degrees

/-! ### One round of the loop -/

theorem exists_ok_of_map {ε α β : Type} {r : Except ε α} {f : α → β} {b : β}
    (h : r.map f = .ok b) : ∃ a, r = .ok a ∧ f a = b := by
  cases r with
  | error e => cases h
  | ok a =>
    cases h
    exact ⟨a, rfl, rfl⟩

section Round

variable {projects : List ResolvedProject} {done remaining : List String} {inDegree : String → ℤ}

/-- The loop between two rounds: `done` are the names of the waves so far. -/
structure SortInv (projects : List ResolvedProject) (done remaining : List String)
    (inDegree : String → ℤ) : Prop where
  done_nodup : done.Nodup
  remaining_eq : remaining = (projects.map ResolvedProject.name).filter fun name => name ∉ done
  degree_eq : ∀ p ∈ projects,
    inDegree p.name = p.dependencies.length - (done.filter (· ∈ p.dependencies)).length

/-- A project that may go into the next wave. -/
def Ready (done : List String) (p : ResolvedProject) : Prop :=
  p.name ∉ done ∧ p.dependencies.Nodup ∧ ∀ dep ∈ p.dependencies, dep ∈ done

instance (done : List String) (p : ResolvedProject) : Decidable (Ready done p) :=
  inferInstanceAs (Decidable (_ ∧ _ ∧ _))

theorem byName_of_mem (hnodup : (projects.map ResolvedProject.name).Nodup) {p : ResolvedProject}
    (hp : p ∈ projects) : byName projects p.name = some p :=
  find_last_of_mem hnodup hp

/-- Names are looked up and give back the projects they were taken from. -/
theorem filterMap_byName (hnodup : (projects.map ResolvedProject.name).Nodup)
    (q : String → Bool) :
    ((projects.map ResolvedProject.name).filter q).filterMap (byName projects) =
      projects.filter fun p => q p.name := by
  rw [List.filter_map, List.filterMap_map]
  have hsome : ∀ p ∈ projects.filter (q ∘ ResolvedProject.name),
      (byName projects ∘ ResolvedProject.name) p = some p :=
    fun p hp => byName_of_mem hnodup (List.mem_of_mem_filter hp)
  rw [List.filterMap_congr hsome, List.filterMap_some]
  rfl

theorem SortInv.nextWave_eq (hnodup : (projects.map ResolvedProject.name).Nodup)
    (h : SortInv projects done remaining inDegree) :
    nextWave projects remaining inDegree = projects.filter fun p => Ready done p := by
  rw [nextWave, h.remaining_eq, List.filter_filter, filterMap_byName hnodup]
  apply List.filter_congr
  intro p hp
  rw [h.degree_eq p hp, ← Bool.decide_and, decide_eq_decide, degree_eq_zero_iff h.done_nodup,
    and_comm, Ready]

theorem SortInv.next (hnodup : (projects.map ResolvedProject.name).Nodup)
    (h : SortInv projects done remaining inDegree) {wave : List ResolvedProject}
    (hwave : wave = nextWave projects remaining inDegree) :
    SortInv projects (done ++ wave.map ResolvedProject.name) (deleteWave remaining wave)
      (wave.foldl (decreaseDependents projects) inDegree) := by
  rw [h.nextWave_eq hnodup] at hwave
  refine ⟨?_, ?_, ?_⟩
  · rw [List.nodup_append]
    refine ⟨h.done_nodup, ?_, ?_⟩
    · rw [hwave]
      exact hnodup.sublist (List.filter_sublist.map _)
    · rintro a ha b hb rfl
      rw [hwave] at hb
      obtain ⟨p, hp, rfl⟩ := List.mem_map.mp hb
      have hready : Ready done p := of_decide_eq_true (List.mem_filter.mp hp).2
      exact hready.1 ha
  · rw [deleteWave, h.remaining_eq, List.filter_filter]
    apply List.filter_congr
    intro name _
    rw [← Bool.decide_and, decide_eq_decide, List.mem_append, not_or, and_comm]
  · intro p hp
    rw [foldl_decreaseDependents_eq hnodup hp, h.degree_eq p hp, List.filter_append,
      List.length_append]
    push_cast
    ring

theorem SortInv.start (hnodup : (projects.map ResolvedProject.name).Nodup) :
    SortInv projects [] (addAll [] (projects.map ResolvedProject.name)) (startDegrees projects) := by
  refine ⟨List.nodup_nil, ?_, ?_⟩
  · rw [addAll_of_nodup (by simpa using hnodup)]
    simp
  · intro p hp
    rw [startDegrees_eq hnodup hp]
    simp

/-- Only a project without repeated dependencies gets into a wave. -/
theorem sortWaves_nodup (hnodup : (projects.map ResolvedProject.name).Nodup)
    (h : SortInv projects done remaining inDegree) {waves : List (List ResolvedProject)}
    (hok : sortWaves projects remaining inDegree = .ok waves) :
    ∀ wave ∈ waves, ∀ p ∈ wave, p.dependencies.Nodup := by
  induction remaining, inDegree using sortWaves.induct projects generalizing done waves with
  | case1 inDegree =>
    rw [sortWaves, if_pos rfl] at hok
    cases hok
    exact fun _ hwave => absurd hwave List.not_mem_nil
  | case2 remaining inDegree hrem wave =>
    rename_i hwave
    rw [sortWaves, if_neg hrem, dif_pos hwave] at hok
    cases hok
  | case3 remaining inDegree hrem wave hwave =>
    rename_i ih
    rw [sortWaves, if_neg hrem, dif_neg hwave] at hok
    obtain ⟨rest, hrest, rfl⟩ := exists_ok_of_map hok
    intro w hw
    rcases List.mem_cons.mp hw with rfl | hw
    · intro p hp
      rw [h.nextWave_eq hnodup] at hp
      have hready : Ready done p := of_decide_eq_true (List.mem_filter.mp hp).2
      exact hready.2.1
    · exact ih (h.next hnodup rfl) hrest w hw

/-- The waves of a sort that ends: each holds projects whose dependencies are all in waves before
    it, and every project is in one of them. -/
theorem sortWaves_order (hnodup : (projects.map ResolvedProject.name).Nodup)
    (h : SortInv projects done remaining inDegree) {waves : List (List ResolvedProject)}
    (hok : sortWaves projects remaining inDegree = .ok waves) :
    (∀ pre wave post, waves = pre ++ wave :: post →
      (wave.map ResolvedProject.name).Nodup ∧ ∀ p ∈ wave, p ∈ projects ∧
        Ready (done ++ pre.flatten.map ResolvedProject.name) p) ∧
    ∀ p ∈ projects, p.name ∉ done → p ∈ waves.flatten := by
  induction remaining, inDegree using sortWaves.induct projects generalizing done waves with
  | case1 inDegree =>
    rw [sortWaves, if_pos rfl] at hok
    cases hok
    refine ⟨fun pre wave post hsplit => absurd hsplit (by simp), ?_⟩
    intro p hp hnot
    have hrem := h.remaining_eq.symm
    rw [List.filter_eq_nil_iff] at hrem
    exact absurd (decide_eq_true hnot) (hrem p.name (List.mem_map_of_mem hp))
  | case2 remaining inDegree hrem wave =>
    rename_i hwave
    rw [sortWaves, if_neg hrem, dif_pos hwave] at hok
    cases hok
  | case3 remaining inDegree hrem wave hwave =>
    rename_i ih
    rw [sortWaves, if_neg hrem, dif_neg hwave] at hok
    obtain ⟨rest, hrest, rfl⟩ := exists_ok_of_map hok
    obtain ⟨horder, hall⟩ := ih (h.next hnodup rfl) hrest
    have hlayer := h.nextWave_eq hnodup
    constructor
    · intro pre w post hsplit
      cases pre with
      | nil =>
        obtain ⟨rfl, rfl⟩ := List.cons.inj hsplit
        rw [List.flatten_nil, List.map_nil, List.append_nil, hlayer]
        refine ⟨hnodup.sublist (List.filter_sublist.map _), ?_⟩
        intro p hp
        obtain ⟨hmem, hready⟩ := List.mem_filter.mp hp
        exact ⟨hmem, of_decide_eq_true hready⟩
      | cons first pre =>
        obtain ⟨rfl, htail⟩ := List.cons.inj hsplit
        have hfound := horder pre w post htail
        rwa [List.append_assoc, ← List.map_append, ← List.flatten_cons] at hfound
    · intro p hp hnot
      rw [List.flatten_cons, List.mem_append]
      by_cases hwave' : p ∈ nextWave projects remaining inDegree
      · exact .inl hwave'
      · right
        apply hall p hp
        rw [List.mem_append, not_or]
        refine ⟨hnot, ?_⟩
        intro hmem
        obtain ⟨q, hq, hname⟩ := List.mem_map.mp hmem
        rw [List.inj_on_of_nodup_map hnodup (mem_nextWave hq).1 hp hname] at hq
        exact hwave' hq

theorem pairwise_of_splits {α : Type} {R : α → α → Prop} {l : List α}
    (h : ∀ pre x mid y post, l = pre ++ x :: mid ++ y :: post → R x y) : l.Pairwise R := by
  induction l with
  | nil => exact .nil
  | cons x l ih =>
    refine .cons (fun y hy => ?_) (ih fun pre x' mid y post hsplit => ?_)
    · obtain ⟨mid, post, rfl⟩ := List.append_of_mem hy
      exact h [] x mid y post rfl
    · exact h (x :: pre) x' mid y post (congrArg (x :: ·) hsplit)

/-- The waves of a sort that ends have no name twice. -/
theorem sortWaves_names_nodup (hnodup : (projects.map ResolvedProject.name).Nodup)
    (h : SortInv projects done remaining inDegree) {waves : List (List ResolvedProject)}
    (hok : sortWaves projects remaining inDegree = .ok waves) :
    (waves.flatten.map ResolvedProject.name).Nodup := by
  have hsplits := (sortWaves_order hnodup h hok).1
  rw [List.map_flatten, List.nodup_flatten, List.forall_mem_map, List.pairwise_map]
  constructor
  · intro wave hwave
    obtain ⟨pre, post, hsplit⟩ := List.append_of_mem hwave
    exact (hsplits pre wave post hsplit).1
  · refine pairwise_of_splits fun pre earlier mid later post hsplit => ?_
    intro name hearlier hlater
    obtain ⟨p, hp, rfl⟩ := List.mem_map.mp hlater
    have hready := ((hsplits _ later post hsplit).2 p hp).2
    refine hready.1 (List.mem_append_right _ ?_)
    simp only [List.flatten_append, List.flatten_cons, List.map_append, List.mem_append]
    exact .inr (.inl hearlier)

/-- No project of a sort that ends depends on one of its own wave or a later one. -/
theorem sortWaves_behind (hnodup : (projects.map ResolvedProject.name).Nodup)
    (h : SortInv projects done remaining inDegree) {waves : List (List ResolvedProject)}
    (hok : sortWaves projects remaining inDegree = .ok waves) :
    (waves.Pairwise fun earlier later =>
      ∀ p ∈ earlier, ∀ q ∈ later, q.name ∉ p.dependencies) ∧
    ∀ wave ∈ waves, ∀ p ∈ wave, ∀ q ∈ wave, q.name ∉ p.dependencies := by
  have hsplits := (sortWaves_order hnodup h hok).1
  constructor
  · refine pairwise_of_splits fun pre earlier mid later post hsplit => ?_
    intro p hp q hq hdep
    have hbehind : earlier :: mid ++ later :: post = earlier :: (mid ++ later :: post) := rfl
    rw [List.append_assoc, hbehind] at hsplit
    obtain ⟨-, -, hdeps⟩ := ((hsplits pre earlier _ hsplit).2 p hp).2
    have hbefore := hdeps q.name hdep
    rw [← hbehind, ← List.append_assoc] at hsplit
    obtain ⟨hnot, -, -⟩ := ((hsplits _ later post hsplit).2 q hq).2
    refine hnot ?_
    rw [List.flatten_append, List.map_append, ← List.append_assoc]
    exact List.mem_append_left _ hbefore
  · intro wave hwave p hp q hq hdep
    obtain ⟨pre, post, hsplit⟩ := List.append_of_mem hwave
    have hready := (hsplits pre wave post hsplit).2
    exact (hready q hq).2.1 ((hready p hp).2.2.2 q.name hdep)

end Round

/-! ### The waves are the layers -/

section Layers

variable {projects : List ResolvedProject}

/-- A list of projects as resolution leaves it: distinct names, dependencies among them, and a
    bound on the chains below every name. -/
structure WellFormed (projects : List ResolvedProject) : Prop where
  names_nodup : (projects.map ResolvedProject.name).Nodup
  deps_exist : ∀ p ∈ projects, ∀ dep ∈ p.dependencies, dep ∈ projects.map ResolvedProject.name
  bounded : Bounded (Needs projects)

/-- The projects of depth `k`. -/
noncomputable def layer (projects : List ResolvedProject) (k : ℕ) : List ResolvedProject :=
  projects.filter fun p => depth (Needs projects) p.name = k

theorem WellFormed.needs_iff (hwf : WellFormed projects) {p : ResolvedProject} (hp : p ∈ projects)
    {b : String} : Needs projects p.name b ↔ b ∈ p.dependencies := by
  constructor
  · rintro ⟨q, hq, hname, hb⟩
    rwa [List.inj_on_of_nodup_map hwf.names_nodup hq hp hname] at hb
  · intro hb
    exact ⟨p, hp, rfl, hb⟩

/-- Where exactly the names of depth less than `k` are done, the projects of depth `k` are the
    ready ones. -/
theorem WellFormed.ready_iff (hwf : WellFormed projects) {done : List String} {k : ℕ}
    (hdone : ∀ p ∈ projects, p.name ∈ done ↔ depth (Needs projects) p.name < k)
    {p : ResolvedProject} (hp : p ∈ projects) (hnodup : p.dependencies.Nodup) :
    Ready done p ↔ depth (Needs projects) p.name = k := by
  have hdeps : (∀ dep ∈ p.dependencies, dep ∈ done) ↔
      ∀ dep ∈ p.dependencies, depth (Needs projects) dep < k := by
    apply forall₂_congr
    intro dep hdep
    obtain ⟨q, hq, rfl⟩ := List.mem_map.mp (hwf.deps_exist p hp dep hdep)
    exact hdone q hq
  rw [Ready, hdone p hp, hdeps, not_lt]
  constructor
  · rintro ⟨hle, -, hall⟩
    apply le_antisymm _ hle
    -- a deeper project would need one of depth `k` or more
    by_contra hgt
    obtain ⟨j, hj⟩ := Nat.exists_eq_add_of_lt (not_le.mp hgt)
    obtain ⟨b, hb, hdepth⟩ := exists_need_depth hwf.bounded hj
    have := hall b ((hwf.needs_iff hp).mp hb)
    omega
  · intro heq
    refine ⟨heq.ge, hnodup, ?_⟩
    intro dep hdep
    have := depth_lt hwf.bounded ((hwf.needs_iff hp).mpr hdep)
    omega

/-- There are projects of every depth below that of a project. -/
theorem WellFormed.layer_ne_nil (hwf : WellFormed projects) {p : ResolvedProject}
    (hp : p ∈ projects) {k : ℕ} (hk : k ≤ depth (Needs projects) p.name) :
    layer projects k ≠ [] := by
  obtain ⟨b, hreach, hdepth⟩ := exists_reach_depth hwf.bounded hk
  have hmem : b ∈ projects.map ResolvedProject.name := by
    rcases Relation.ReflTransGen.cases_tail hreach with rfl | ⟨c, -, q, hq, -, hb⟩
    · exact List.mem_map_of_mem hp
    · exact hwf.deps_exist q hq b hb
  obtain ⟨q, hq, rfl⟩ := List.mem_map.mp hmem
  apply List.ne_nil_of_mem (a := q)
  exact List.mem_filter.mpr ⟨hq, decide_eq_true hdepth⟩

/-- **The loop from round `k` on.**  Where no list has repetitions the waves are the layers, up
    to the last one that is not empty. -/
theorem sortWaves_layers (hwf : WellFormed projects)
    (hnodup : ∀ p ∈ projects, p.dependencies.Nodup) {done remaining : List String}
    {inDegree : String → ℤ} {k : ℕ} (h : SortInv projects done remaining inDegree)
    (hdone : ∀ p ∈ projects, p.name ∈ done ↔ depth (Needs projects) p.name < k) :
    ∃ m, sortWaves projects remaining inDegree = .ok ((List.range' k m).map (layer projects)) ∧
      ∀ p ∈ projects, depth (Needs projects) p.name < k + m := by
  have hlayer : nextWave projects remaining inDegree = layer projects k := by
    rw [h.nextWave_eq hwf.names_nodup]
    apply List.filter_congr
    intro p hp
    rw [decide_eq_decide, hwf.ready_iff hdone hp (hnodup p hp)]
  induction remaining, inDegree using sortWaves.induct projects generalizing done k with
  | case1 inDegree =>
    refine ⟨0, by rw [sortWaves, if_pos rfl]; rfl, ?_⟩
    intro p hp
    rw [Nat.add_zero, ← hdone p hp]
    by_contra hnot
    have hrem := h.remaining_eq.symm
    rw [List.filter_eq_nil_iff] at hrem
    exact hrem p.name (List.mem_map_of_mem hp) (decide_eq_true hnot)
  | case2 remaining inDegree hrem wave =>
    rename_i hwave
    rw [h.remaining_eq] at hrem
    obtain ⟨name, hname⟩ := List.exists_mem_of_ne_nil _ hrem
    obtain ⟨hmem, hnot⟩ := List.mem_filter.mp hname
    obtain ⟨p, hp, rfl⟩ := List.mem_map.mp hmem
    rw [decide_eq_true_iff, hdone p hp, not_lt] at hnot
    exact absurd (hlayer.symm.trans hwave) (hwf.layer_ne_nil hp hnot)
  | case3 remaining inDegree hrem wave hwave =>
    rename_i ih
    have hnext := h.next hwf.names_nodup rfl
    have hdone' : ∀ p ∈ projects,
        p.name ∈ done ++ (nextWave projects remaining inDegree).map ResolvedProject.name ↔
          depth (Needs projects) p.name < k + 1 := by
      intro p hp
      have hmap : p.name ∈ (layer projects k).map ResolvedProject.name ↔
          depth (Needs projects) p.name = k := by
        constructor
        · intro hin
          obtain ⟨q, hq, hname⟩ := List.mem_map.mp hin
          rw [← hname]
          exact of_decide_eq_true (List.mem_filter.mp hq).2
        · intro heq
          exact List.mem_map_of_mem (List.mem_filter.mpr ⟨hp, decide_eq_true heq⟩)
      rw [List.mem_append, hdone p hp, hlayer, hmap, Nat.lt_succ_iff_lt_or_eq]
    have hlayer' := hnext.nextWave_eq hwf.names_nodup
    obtain ⟨m, hm, hbound⟩ := ih hnext hdone' (by
      rw [hlayer']
      apply List.filter_congr
      intro p hp
      rw [decide_eq_decide, hwf.ready_iff hdone' hp (hnodup p hp)])
    refine ⟨m + 1, ?_, ?_⟩
    · rw [sortWaves, if_neg hrem, dif_neg hwave, hm, hlayer, List.range'_succ]
      rfl
    · intro p hp
      have := hbound p hp
      omega

/-- A list cut into layers is the list, in another order. -/
theorem flatten_layers_perm {α : Type} (l : List α) (f : α → ℕ) {m : ℕ} (hm : ∀ a ∈ l, f a < m) :
    ((List.range' 0 m).map fun k => l.filter fun a => f a = k).flatten.Perm l := by
  have hcut : ∀ m, ((List.range' 0 m).map fun k => l.filter fun a => f a = k).flatten.Perm
      (l.filter fun a => f a < m) := by
    intro m
    induction m with
    | zero => simp
    | succ m ih =>
      rw [List.range'_concat, List.map_append, List.flatten_append]
      refine (ih.append_right _).trans ?_
      have hsplit := List.filter_append_perm (fun a => decide (f a < m))
        (l.filter fun a => f a < m + 1)
      rw [List.filter_filter, List.filter_filter] at hsplit
      refine List.Perm.trans (List.Perm.of_eq ?_) hsplit
      congr 1
      · apply List.filter_congr
        intro a _
        rw [← Bool.decide_and, decide_eq_decide]
        omega
      · rw [List.map_singleton, List.flatten_singleton]
        apply List.filter_congr
        intro a _
        rw [← decide_not, ← Bool.decide_and, decide_eq_decide]
        omega
  refine (hcut m).trans (List.Perm.of_eq ?_)
  rw [List.filter_eq_self]
  exact fun a ha => decide_eq_true (hm a ha)

/-- **Sorting.**  A well-formed list of projects sorts exactly where no dependency list has a
    repeated entry. -/
theorem WellFormed.sorts_iff (hwf : WellFormed projects) :
    Sorts projects ↔ ∀ p ∈ projects, p.dependencies.Nodup := by
  have hstart := SortInv.start hwf.names_nodup
  constructor
  · rintro ⟨waves, hok, hperm, -⟩ p hp
    obtain ⟨wave, hwave, hpw⟩ := List.mem_flatten.mp (hperm.mem_iff.mpr hp)
    exact sortWaves_nodup hwf.names_nodup hstart hok wave hwave p hpw
  · intro hnodup
    obtain ⟨m, hok, hbound⟩ := sortWaves_layers hwf hnodup hstart (k := 0) (by simp)
    rw [Nat.zero_add] at hbound
    refine ⟨_, hok, flatten_layers_perm projects _ hbound, ?_⟩
    intro k wave hk p hp
    obtain ⟨hkm, rfl⟩ : k < m ∧ layer projects k = wave := by
      obtain ⟨hlt, heq⟩ := List.getElem?_eq_some_iff.mp hk
      exact ⟨by simpa using hlt, by simpa using heq⟩
    obtain ⟨hmem, hdepth⟩ := List.mem_filter.mp hp
    have hk' : depth (Needs projects) p.name = k := of_decide_eq_true hdepth
    constructor
    · intro dep hdep
      obtain ⟨q, hq, rfl⟩ := List.mem_map.mp (hwf.deps_exist p hmem dep hdep)
      have hlt := depth_lt hwf.bounded ((hwf.needs_iff hmem).mpr hdep)
      refine ⟨depth (Needs projects) q.name, by omega, layer projects _, ?_,
        List.mem_map_of_mem (List.mem_filter.mpr ⟨hq, decide_eq_true rfl⟩)⟩
      rw [List.getElem?_eq_some_iff]
      exact ⟨by rw [List.length_map, List.length_range']; omega, by simp⟩
    · rw [← hk']
      exact depth_isGreatest hwf.bounded p.name

end Layers

/-! ### Accepted lists -/

section Accepted

variable {Config : Type} {effectiveConfigForProject : ProjectConfig → Except (List String) Config}
  {deviceSignature : Config → String} {defaultSignature : String}
  {projects : List ProjectConfig} {resolved : List ResolvedProject}

/-- Resolution keeps the names and the dependencies of the projects. -/
theorem resolveProjects_keeps (hne : projects ≠ [])
    (h : resolveProjects effectiveConfigForProject deviceSignature defaultSignature projects =
      .ok resolved) :
    resolved.map (fun r => (r.name, r.dependencies)) = projects.map fun p => (p.name, p.deps) := by
  have hmap : ∀ (projects : List ProjectConfig) (resolved : List ResolvedProject),
      projects.mapM (fun p => (effectiveConfigForProject p).map fun effective =>
        { name := p.name, dependencies := p.deps, deviceSignature := deviceSignature effective,
          workers := p.workers : ResolvedProject }) = .ok resolved →
      resolved.map (fun r => (r.name, r.dependencies)) =
        projects.map fun p => (p.name, p.deps) := by
    intro projects
    induction projects with
    | nil =>
      intro resolved h
      cases h
      rfl
    | cons p projects ih =>
      intro resolved h
      rw [List.mapM_cons] at h
      cases heff : effectiveConfigForProject p with
      | error e =>
        rw [heff] at h
        cases h
      | ok effective =>
        rw [heff] at h
        obtain ⟨rest, hrest, rfl⟩ := exists_ok_of_map h
        rw [List.map_cons, List.map_cons, ih rest hrest]
  unfold resolveProjects at h
  rw [if_neg hne] at h
  cases hvalid : validateProjects effectiveConfigForProject projects with
  | error issues =>
    rw [hvalid] at h
    cases h
  | ok _ =>
    rw [hvalid] at h
    exact hmap projects resolved h

/-- An accepted list resolves to a well-formed one. -/
theorem Accepted.wellFormed (hacc : Accepted projects)
    (hkeeps : resolved.map (fun r => (r.name, r.dependencies)) =
      projects.map fun p => (p.name, p.deps)) : WellFormed resolved := by
  have hnames : resolved.map ResolvedProject.name = projects.map ProjectConfig.name := by
    have := congrArg (List.map Prod.fst) hkeeps
    rwa [List.map_map, List.map_map] at this
  have hsource : ∀ r ∈ resolved, ∃ p ∈ projects, p.name = r.name ∧ p.deps = r.dependencies := by
    intro r hr
    have hmem : (r.name, r.dependencies) ∈ projects.map fun p => (p.name, p.deps) := by
      rw [← hkeeps]
      exact List.mem_map_of_mem hr
    obtain ⟨p, hp, heq⟩ := List.mem_map.mp hmem
    obtain ⟨hname, hdeps⟩ := Prod.mk.inj heq
    exact ⟨p, hp, hname, hdeps⟩
  refine ⟨?_, ?_, ?_⟩
  · rw [hnames]
    exact hacc.names_nodup
  · intro r hr dep hdep
    obtain ⟨p, hp, -, hdeps⟩ := hsource r hr
    rw [hnames]
    exact hacc.deps_exist p hp dep (hdeps ▸ hdep)
  · obtain ⟨order, hord, hall⟩ := findCycle_none hacc.no_cycle
    have hneeds : ∀ a b, Needs resolved a b → ConfigNeeds projects a b := by
      rintro a b ⟨r, hr, rfl, hb⟩
      obtain ⟨p, hp, hname, hdeps⟩ := hsource r hr
      refine ⟨p, ?_, hdeps ▸ hb⟩
      rw [← hname]
      exact find_last_of_mem hacc.names_nodup hp
    have hord' : Ordered (Needs resolved) order :=
      fun pre a post hsplit b hb => hord pre a post hsplit b (hneeds a b hb)
    apply hord'.bounded
    rintro a b ⟨r, hr, rfl, -⟩
    apply hall
    rw [← hnames]
    exact List.mem_map_of_mem hr

/-- **Accepted lists.**  Of the lists that validation accepts, the ones without a repeated entry
    in a dependency list sort. -/
theorem topologicalSort_sorts_iff
    (hvalid : validateProjects effectiveConfigForProject projects = .ok ())
    (hresolve : resolveProjects effectiveConfigForProject deviceSignature defaultSignature projects =
      .ok resolved) :
    Sorts resolved ↔ ∀ p ∈ projects, p.deps.Nodup := by
  by_cases hempty : projects = []
  · subst hempty
    rw [resolveProjects, if_pos rfl] at hresolve
    cases hresolve
    have hwf : WellFormed [{ name := "default", deviceSignature := defaultSignature }] := by
      refine ⟨List.nodup_singleton _, by simp, ?_⟩
      apply Ordered.nil.bounded
      rintro a b ⟨p, hp, -, hb⟩
      rw [List.mem_singleton.mp hp] at hb
      exact absurd hb List.not_mem_nil
    rw [hwf.sorts_iff]
    simp
  · have hkeeps := resolveProjects_keeps hempty hresolve
    rw [((validateProjects_ok _ hvalid).wellFormed hkeeps).sorts_iff]
    have hlists : resolved.map ResolvedProject.dependencies = projects.map ProjectConfig.deps := by
      have := congrArg (List.map Prod.snd) hkeeps
      rwa [List.map_map, List.map_map] at this
    have hforall := congrArg (fun lists => ∀ deps ∈ lists, List.Nodup deps) hlists
    simpa only [List.forall_mem_map, eq_iff_iff] using hforall

/-- A setup project and one that depends on it, however often, are accepted. -/
theorem setup_accepted (deps : List String) (hdeps : ∀ dep ∈ deps, dep = "setup") :
    validateProjects (fun _ => Except.ok ())
      [{ name := "setup" }, { name := "e2e", dependencies := some deps }] = .ok () := by
  have hdone : ∀ projects, dfs projects deps ["e2e"] ["setup"] = .ok ["setup"] := by
    intro projects
    induction deps with
    | nil => exact dfs_nil
    | cons dep deps ih =>
      obtain rfl := hdeps dep List.mem_cons_self
      rw [dfs, if_neg (by decide), if_pos (by decide)]
      exact ih fun d hd => hdeps d (List.mem_cons_of_mem _ hd)
  have hcycle : findCycle
      [{ name := "setup" }, { name := "e2e", dependencies := some deps }] = none := by
    rw [findCycle, List.map_cons, List.map_singleton,
      dfs_enter (p := { name := "setup" }) (by decide) (by decide) rfl]
    simp only [ProjectConfig.deps, Option.getD_none, dfs_nil, List.nil_append]
    rw [dfs_enter (p := { name := "e2e", dependencies := some deps }) (by decide) (by decide) rfl]
    simp only [ProjectConfig.deps, Option.getD_some, List.nil_append, hdone, dfs_nil]
  have hrefs : deps.filterMap
      (referenceIssue ["setup", "e2e"] { name := "e2e", dependencies := some deps }) = [] := by
    rw [List.filterMap_eq_nil_iff]
    intro dep hdep
    rw [hdeps dep hdep]
    rfl
  simp [validateProjects, nameIssues, cycleIssues, hcycle, useIssues, projectUseIssue,
    ProjectConfig.deps, hrefs]

/-- A setup project and one that depends on it. -/
theorem topologicalSort_sorts_iff_setup :
    Sorts [{ name := "setup" }, { name := "e2e", dependencies := ["setup"] }] := by
  have hvalid := setup_accepted ["setup"] (by simp)
  have hresolve : resolveProjects (fun _ => Except.ok ()) (fun _ => "") ""
      [{ name := "setup" }, { name := "e2e", dependencies := some ["setup"] }] =
      .ok [{ name := "setup" }, { name := "e2e", dependencies := ["setup"] }] := by
    rw [resolveProjects, hvalid]
    rfl
  apply (topologicalSort_sorts_iff hvalid hresolve).mpr
  decide

/-- A repeated dependency is accepted and makes the sort report a cycle. -/
theorem repeated_dependency_throws :
    let projects : List ProjectConfig :=
      [{ name := "setup" }, { name := "e2e", dependencies := some ["setup", "setup"] }]
    validateProjects (fun _ => Except.ok ()) projects = .ok () ∧
    ∃ resolved,
      resolveProjects (fun _ => Except.ok ()) (fun _ => "") "" projects = .ok resolved ∧
      topologicalSort resolved =
        .error "Circular dependency detected among projects: e2e" := by
  have hvalid := setup_accepted ["setup", "setup"] (by simp)
  refine ⟨hvalid,
    [{ name := "setup" }, { name := "e2e", dependencies := ["setup", "setup"] }], ?_, ?_⟩
  · rw [resolveProjects, hvalid]
    rfl
  · rw [topologicalSort, sortWaves]
    decide +kernel

end Accepted

end Tapsmith.Project
