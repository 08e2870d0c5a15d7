import Mathlib.Logic.Relation
import Tapsmith.Project.Sort

namespace Tapsmith.Project

open Relation

/-!
# Projects — transitive dependencies

`collectTransitiveDeps`: the projects that a set of projects needs, with those of the set itself.

* `collect` — the calls of `collect`, for the names that are still to be collected;
* `mem_collectTransitiveDeps` — what is collected is what can be reached over dependencies.
-/

/-- The projects that were not collected yet. -/
def uncollected (projects : List ResolvedProject) (result : List String) : List ResolvedProject :=
  projects.filter fun p => p.name ∉ result

theorem uncollected_lt {projects : List ResolvedProject} {result : List String} {name : String}
    {p : ResolvedProject} (hp : byName projects name = some p) (hname : name ∉ result) :
    (uncollected projects (result ++ [name])).length < (uncollected projects result).length := by
  obtain ⟨hmem, rfl⟩ := byName_some hp
  have hsplit : uncollected projects (result ++ [p.name]) =
      (uncollected projects result).filter fun q => q.name ≠ p.name := by
    unfold uncollected
    rw [List.filter_filter]
    congr 1
    ext q
    simp [and_comm]
  rw [hsplit, List.length_filter_lt_length_iff_exists]
  exact ⟨p, List.mem_filter.mpr ⟨hmem, decide_eq_true hname⟩, by simp⟩

theorem uncollected_eq {projects : List ResolvedProject} {result : List String} {name : String}
    (hp : byName projects name = none) :
    uncollected projects (result ++ [name]) = uncollected projects result := by
  apply List.filter_congr
  intro p hmem
  have hne : p.name ≠ name := by
    rintro rfl
    have hnone := List.find?_eq_none.mp hp p (List.mem_reverse.mpr hmem)
    exact hnone (decide_eq_true rfl)
  simp [hne]

/-- The calls of `collect` that are still to come, in order; those for the dependencies of a project
    come first. -/
def collect (projects : List ResolvedProject) (todo result : List String) : List String :=
  match todo with
  | [] => result
  | name :: rest =>
    if name ∈ result then collect projects rest result
    else
      match _hp : byName projects name with
      | some p => collect projects (p.dependencies ++ rest) (result ++ [name])
      | none => collect projects rest (result ++ [name])
termination_by ((uncollected projects result).length, todo.length)
decreasing_by
  · exact Prod.Lex.right _ (Nat.lt_succ_self _)
  · exact Prod.Lex.left _ _ (uncollected_lt _hp ‹_›)
  · rw [uncollected_eq _hp]
    exact Prod.Lex.right _ (Nat.lt_succ_self _)

def collectTransitiveDeps (projectNames : List String) (allProjects : List ResolvedProject) :
    List String :=
  collect allProjects projectNames []

variable {projects : List ResolvedProject} {todo result : List String} {a b : String}

/-- `byName` looks a dependency up where `Needs` has it, as the names are distinct. -/
theorem needs_iff_byName (hnodup : (projects.map ResolvedProject.name).Nodup) :
    Needs projects a b ↔ ∃ p, byName projects a = some p ∧ b ∈ p.dependencies := by
  constructor
  · rintro ⟨p, hp, rfl, hb⟩
    exact ⟨p, byName_of_mem hnodup hp, hb⟩
  · rintro ⟨p, hp, hb⟩
    obtain ⟨hmem, hname⟩ := byName_some hp
    exact ⟨p, hmem, hname, hb⟩

/-- The loop between two calls: what a collected project needs is collected, or to be collected. -/
def Covered (projects : List ResolvedProject) (todo result : List String) : Prop :=
  ∀ a ∈ result, ∀ b, Needs projects a b → b ∈ result ∨ b ∈ todo

theorem mem_collect_of_mem (h : a ∈ result) : a ∈ collect projects todo result := by
  induction todo, result using collect.induct projects with
  | case1 result =>
    rw [collect]
    exact h
  | case2 result name rest hmem ih =>
    rw [collect, if_pos hmem]
    exact ih h
  | case3 result name rest hmem p hp ih =>
    rw [collect, if_neg hmem, hp]
    exact ih (List.mem_append_left _ h)
  | case4 result name rest hmem hp ih =>
    rw [collect, if_neg hmem, hp]
    exact ih (List.mem_append_left _ h)

theorem mem_collect_of_mem_todo (h : a ∈ todo) : a ∈ collect projects todo result := by
  induction todo, result using collect.induct projects with
  | case1 result => exact absurd h List.not_mem_nil
  | case2 result name rest hmem ih =>
    rw [collect, if_pos hmem]
    rcases List.mem_cons.mp h with rfl | h
    · exact mem_collect_of_mem hmem
    · exact ih h
  | case3 result name rest hmem p hp ih =>
    rw [collect, if_neg hmem, hp]
    rcases List.mem_cons.mp h with rfl | h
    · exact mem_collect_of_mem (List.mem_append_right _ List.mem_cons_self)
    · exact ih (List.mem_append_right _ h)
  | case4 result name rest hmem hp ih =>
    rw [collect, if_neg hmem, hp]
    rcases List.mem_cons.mp h with rfl | h
    · exact mem_collect_of_mem (List.mem_append_right _ List.mem_cons_self)
    · exact ih h

/-- What is collected is reached from what was to be collected. -/
theorem exists_reach_of_mem_collect (hnodup : (projects.map ResolvedProject.name).Nodup)
    (h : a ∈ collect projects todo result) :
    a ∈ result ∨ ∃ start ∈ todo, ReflTransGen (Needs projects) start a := by
  induction todo, result using collect.induct projects with
  | case1 result =>
    rw [collect] at h
    exact .inl h
  | case2 result name rest hmem ih =>
    rw [collect, if_pos hmem] at h
    exact (ih h).imp_right fun ⟨start, hstart, hreach⟩ =>
      ⟨start, List.mem_cons_of_mem _ hstart, hreach⟩
  | case3 result name rest hmem p hp ih =>
    rw [collect, if_neg hmem, hp] at h
    rcases ih h with hres | ⟨start, hstart, hreach⟩
    · rcases List.mem_append.mp hres with hres | hres
      · exact .inl hres
      · obtain rfl := List.mem_singleton.mp hres
        exact .inr ⟨a, List.mem_cons_self, .refl⟩
    · right
      rcases List.mem_append.mp hstart with hdep | hrest
      · have hneeds : Needs projects name start := (needs_iff_byName hnodup).mpr ⟨p, hp, hdep⟩
        exact ⟨name, List.mem_cons_self, .head hneeds hreach⟩
      · exact ⟨start, List.mem_cons_of_mem _ hrest, hreach⟩
  | case4 result name rest hmem hp ih =>
    rw [collect, if_neg hmem, hp] at h
    rcases ih h with hres | ⟨start, hstart, hreach⟩
    · rcases List.mem_append.mp hres with hres | hres
      · exact .inl hres
      · obtain rfl := List.mem_singleton.mp hres
        exact .inr ⟨a, List.mem_cons_self, .refl⟩
    · exact .inr ⟨start, List.mem_cons_of_mem _ hstart, hreach⟩

/-- At the end everything that a collected project needs is collected. -/
theorem covered_collect (hnodup : (projects.map ResolvedProject.name).Nodup)
    (h : Covered projects todo result) : Covered projects [] (collect projects todo result) := by
  induction todo, result using collect.induct projects with
  | case1 result =>
    rw [collect]
    exact h
  | case2 result name rest hmem ih =>
    rw [collect, if_pos hmem]
    refine ih fun a ha b hb => ?_
    rcases h a ha b hb with hres | htodo
    · exact .inl hres
    · rcases List.mem_cons.mp htodo with rfl | hrest
      · exact .inl hmem
      · exact .inr hrest
  | case3 result name rest hmem p hp ih =>
    rw [collect, if_neg hmem, hp]
    refine ih fun a ha b hb => ?_
    rcases List.mem_append.mp ha with ha | ha
    · rcases h a ha b hb with hres | htodo
      · exact .inl (List.mem_append_left _ hres)
      · rcases List.mem_cons.mp htodo with rfl | hrest
        · exact .inl (List.mem_append_right _ List.mem_cons_self)
        · exact .inr (List.mem_append_right _ hrest)
    · obtain rfl := List.mem_singleton.mp ha
      obtain ⟨q, hq, hdep⟩ := (needs_iff_byName hnodup).mp hb
      obtain rfl := Option.some.inj (hp.symm.trans hq)
      exact .inr (List.mem_append_left _ hdep)
  | case4 result name rest hmem hp ih =>
    rw [collect, if_neg hmem, hp]
    refine ih fun a ha b hb => ?_
    rcases List.mem_append.mp ha with ha | ha
    · rcases h a ha b hb with hres | htodo
      · exact .inl (List.mem_append_left _ hres)
      · rcases List.mem_cons.mp htodo with rfl | hrest
        · exact .inl (List.mem_append_right _ List.mem_cons_self)
        · exact .inr hrest
    · obtain rfl := List.mem_singleton.mp ha
      obtain ⟨q, hq, -⟩ := (needs_iff_byName hnodup).mp hb
      cases hp.symm.trans hq

/-- **Transitive dependencies.**  What is collected is what the given projects reach over
    dependencies, themselves included. -/
theorem mem_collectTransitiveDeps (hnodup : (projects.map ResolvedProject.name).Nodup)
    {names : List String} : a ∈ collectTransitiveDeps names projects ↔
      ∃ start ∈ names, ReflTransGen (Needs projects) start a := by
  constructor
  · intro h
    exact (exists_reach_of_mem_collect hnodup h).resolve_left List.not_mem_nil
  · rintro ⟨start, hstart, hreach⟩
    have hcovered : Covered projects [] (collectTransitiveDeps names projects) :=
      covered_collect hnodup fun a ha => absurd ha List.not_mem_nil
    induction hreach with
    | refl => exact mem_collect_of_mem_todo hstart
    | tail _ hneeds ih => exact (hcovered _ ih _ hneeds).resolve_right List.not_mem_nil

end Tapsmith.Project
