import Mathlib.Data.List.Basic
import Mathlib.Data.List.Nodup
import Tapsmith.Lib.Graph

namespace Tapsmith.Project

open Lib.Graph

/-!
# Projects — validation and resolution

The `projects` of a config as `project.ts` checks and resolves them.  What the rest of the run
reads of a resolved project is its name, its dependencies, its files and the device it targets;
the config it runs under is built elsewhere and is a parameter here.

* `validateProjects` — every reason for which the projects cannot run;
* `validateProjects_ok` — an accepted list has distinct non-empty names, dependencies among
  them, and no cycle;
* `findCycle_none` — where the depth-first search finds no cycle, the names have an order in
  which every project comes behind its dependencies.
-/

/-! ### The data -/

inductive Platform
  | android
  | ios
deriving DecidableEq

/-- The fields of a project's `use` that its validation looks at. -/
structure UseOptions where
  platform : Option Platform := none
  avd : Option String := none
  apk : Option String := none
  agentApk : Option String := none
  agentTestApk : Option String := none
  simulator : Option String := none
  app : Option String := none
  iosXctestrun : Option String := none
deriving DecidableEq

/-- A project as the config declares it. -/
structure ProjectConfig where
  name : String
  dependencies : Option (List String) := none
  use : Option UseOptions := none
  workers : Option ℕ := none
deriving DecidableEq

/-- A project as the run uses it.  `testFiles` is filled in after file discovery. -/
structure ResolvedProject where
  name : String
  dependencies : List String := []
  testFiles : List String := []
  deviceSignature : String := ""
  workers : Option ℕ := none
deriving DecidableEq

/-- `p.dependencies ?? []`. -/
def ProjectConfig.deps (p : ProjectConfig) : List String :=
  p.dependencies.getD []

/-! ### Platform mixtures -/

/-- `projectUseIssue`. -/
def projectUseIssue (name : String) (use : Option UseOptions) : Option String :=
  match use with
  | none => none
  | some use =>
    match use.platform with
    | some .ios =>
      if use.avd.isSome then
        some s!"Project \"{name}\" sets platform: 'ios' but also `avd` (Android-only). Remove `avd` or change platform."
      else if use.apk.isSome then
        some s!"Project \"{name}\" sets platform: 'ios' but also `apk` (Android-only). Use `app` for iOS."
      else if use.agentApk.isSome || use.agentTestApk.isSome then
        some s!"Project \"{name}\" sets platform: 'ios' but also `agentApk`/`agentTestApk` (Android-only)."
      else none
    | some .android =>
      if use.simulator.isSome then
        some s!"Project \"{name}\" sets platform: 'android' but also `simulator` (iOS-only). Remove `simulator` or change platform."
      else if use.app.isSome then
        some s!"Project \"{name}\" sets platform: 'android' but also `app` (iOS-only). Use `apk` for Android."
      else if use.iosXctestrun.isSome then
        some s!"Project \"{name}\" sets platform: 'android' but also `iosXctestrun` (iOS-only)."
      else none
    | none =>
      if (use.avd.isSome || use.apk.isSome) &&
          (use.simulator.isSome || use.app.isSome || use.iosXctestrun.isSome) then
        some s!"Project \"{name}\" mixes Android (`avd`/`apk`) and iOS (`simulator`/`app`) fields. Set `platform` and use only one set."
      else none

/-! ### Cycles -/

/-- Where the keys are distinct, the last element with a key is the only one. -/
theorem find_last_of_mem {α : Type} {key : α → String} {l : List α} (hnodup : (l.map key).Nodup)
    {a : α} (ha : a ∈ l) : l.reverse.find? (fun b => key b = key a) = some a := by
  cases hfind : l.reverse.find? fun b => key b = key a with
  | some b =>
    have hmem := List.mem_reverse.mp (List.mem_of_find?_eq_some hfind)
    have hkey := List.find?_some hfind
    rw [List.inj_on_of_nodup_map hnodup hmem ha (of_decide_eq_true hkey)]
  | none =>
    rw [List.find?_eq_none] at hfind
    exact absurd (decide_eq_true rfl) (hfind a (List.mem_reverse.mpr ha))

/-- `depMap.get(name)`: of two projects with one name the later one is in the map. -/
def depMap (projects : List ProjectConfig) (name : String) : Option ProjectConfig :=
  projects.reverse.find? fun p => p.name = name

/-- The projects a path has not come to yet. -/
def offPath (projects : List ProjectConfig) (path : List String) : List ProjectConfig :=
  projects.filter fun p => p.name ∉ path

theorem depMap_some {projects : List ProjectConfig} {name : String} {p : ProjectConfig}
    (h : depMap projects name = some p) : p ∈ projects ∧ p.name = name := by
  have hmem := List.mem_of_find?_eq_some h
  have hname := List.find?_some h
  exact ⟨List.mem_reverse.mp hmem, of_decide_eq_true hname⟩

/-- A step along the path leaves fewer projects off it. -/
theorem offPath_lt {projects : List ProjectConfig} {path : List String} {name : String}
    {p : ProjectConfig} (h : depMap projects name = some p) (hname : name ∉ path) :
    (offPath projects (path ++ [name])).length < (offPath projects path).length := by
  obtain ⟨hmem, rfl⟩ := depMap_some h
  have hsplit : offPath projects (path ++ [p.name]) =
      (offPath projects path).filter fun q => q.name ≠ p.name := by
    rw [offPath, offPath, List.filter_filter]
    congr 1
    ext q
    simp [and_comm]
  rw [hsplit, List.length_filter_lt_length_iff_exists]
  exact ⟨p, List.mem_filter.mpr ⟨hmem, decide_eq_true hname⟩, by simp⟩

/-- The calls of `dfs` that a loop over `todo` makes, `path` being the names on the stack, in
    order.  The result is the cycle, or what is visited afterwards. -/
def dfs (projects : List ProjectConfig) (todo path visited : List String) :
    Except (List String) (List String) :=
  match todo with
  | [] => .ok visited
  | name :: rest =>
    if name ∈ path then .error (path.drop (path.idxOf name) ++ [name])
    else if name ∈ visited then dfs projects rest path visited
    else
      match _hp : depMap projects name with
      | some p =>
        match dfs projects p.deps (path ++ [name]) visited with
        | .error cycle => .error cycle
        | .ok visited => dfs projects rest path (visited ++ [name])
      | none => dfs projects rest path (visited ++ [name])
termination_by ((offPath projects path).length, todo.length)
decreasing_by
  · exact Prod.Lex.right _ (Nat.lt_succ_self _)
  · exact Prod.Lex.left _ _ (offPath_lt _hp ‹_›)
  · exact Prod.Lex.right _ (Nat.lt_succ_self _)
  · exact Prod.Lex.right _ (Nat.lt_succ_self _)

@[simp] theorem dfs_nil {projects : List ProjectConfig} {path visited : List String} :
    dfs projects [] path visited = .ok visited := by
  rw [dfs]

/-- The call for a name that is new. -/
theorem dfs_enter {projects : List ProjectConfig} {name : String} {rest path visited : List String}
    {p : ProjectConfig} (hpath : name ∉ path) (hvisited : name ∉ visited)
    (hp : depMap projects name = some p) :
    dfs projects (name :: rest) path visited =
      match dfs projects p.deps (path ++ [name]) visited with
      | .error cycle => .error cycle
      | .ok visited => dfs projects rest path (visited ++ [name]) := by
  rw [dfs, if_neg hpath, if_neg hvisited, hp]

/-- The first dependency cycle among the projects, as a path that ends where it starts. -/
def findCycle (projects : List ProjectConfig) : Option (List String) :=
  match dfs projects (projects.map ProjectConfig.name) [] [] with
  | .error cycle => some cycle
  | .ok _ => none

/-- What the search follows: from a name to the dependencies of its project. -/
def ConfigNeeds (projects : List ProjectConfig) (a b : String) : Prop :=
  ∃ p, depMap projects a = some p ∧ b ∈ p.deps

/-- A search that finds no cycle extends the visited names to the ones it was called for, in an
    order in which everything comes behind what it needs. -/
theorem dfs_ordered {projects : List ProjectConfig} {todo path visited visited' : List String}
    (h : dfs projects todo path visited = .ok visited')
    (hord : Ordered (ConfigNeeds projects) visited) :
    Ordered (ConfigNeeds projects) visited' ∧ visited ⊆ visited' ∧ todo ⊆ visited' := by
  induction todo, path, visited using dfs.induct projects generalizing visited' with
  | case1 path visited =>
    rw [dfs] at h
    cases h
    exact ⟨hord, List.Subset.refl _, List.nil_subset _⟩
  | case2 path visited name rest hpath =>
    rw [dfs, if_pos hpath] at h
    cases h
  | case3 path visited name rest hpath hvisited ih =>
    rw [dfs, if_neg hpath, if_pos hvisited] at h
    obtain ⟨hord', hsub, hrest⟩ := ih h hord
    exact ⟨hord', hsub, List.cons_subset.mpr ⟨hsub hvisited, hrest⟩⟩
  | case4 path visited name rest hpath hvisited p hp cycle hcycle ih =>
    rw [dfs, if_neg hpath, if_neg hvisited, hp] at h
    simp only [hcycle] at h
    cases h
  | case5 path visited name rest hpath hvisited p hp inner hinner ih₁ ih₂ =>
    rw [dfs, if_neg hpath, if_neg hvisited, hp] at h
    simp only [hinner] at h
    obtain ⟨hord₁, hsub₁, hdeps⟩ := ih₁ hinner hord
    have hsnoc : Ordered (ConfigNeeds projects) (inner ++ [name]) := by
      apply hord₁.snoc
      rintro b ⟨q, hq, hb⟩
      obtain rfl := Option.some.inj (hp.symm.trans hq)
      exact hdeps hb
    obtain ⟨hord', hsub, hrest⟩ := ih₂ h hsnoc
    obtain ⟨hinner', hname⟩ := List.append_subset.mp hsub
    exact ⟨hord', List.Subset.trans hsub₁ hinner', List.cons_subset.mpr
      ⟨hname (List.mem_singleton_self name), hrest⟩⟩
  | case6 path visited name rest hpath hvisited hp ih =>
    rw [dfs, if_neg hpath, if_neg hvisited, hp] at h
    have hsnoc : Ordered (ConfigNeeds projects) (visited ++ [name]) := by
      apply hord.snoc
      rintro b ⟨q, hq, -⟩
      rw [hp] at hq
      cases hq
    obtain ⟨hord', hsub, hrest⟩ := ih h hsnoc
    obtain ⟨hvisited', hname⟩ := List.append_subset.mp hsub
    exact ⟨hord', hvisited', List.cons_subset.mpr
      ⟨hname (List.mem_singleton_self name), hrest⟩⟩

theorem findCycle_none {projects : List ProjectConfig} (h : findCycle projects = none) :
    ∃ order, Ordered (ConfigNeeds projects) order ∧ projects.map ProjectConfig.name ⊆ order := by
  unfold findCycle at h
  split at h
  · cases h
  · rename_i order hdfs
    obtain ⟨hord, -, hall⟩ := dfs_ordered hdfs .nil
    exact ⟨order, hord, hall⟩

/-! ### Validation -/

section Validate

variable {Config : Type} (effectiveConfigForProject : ProjectConfig → Except (List String) Config)

/-- The loop over the names: its issues, and the set of names it leaves. -/
def nameIssues : List ProjectConfig → List String → List String × List String
  | [], names => ([], names)
  | p :: rest, names =>
    if p.name = "" then
      let (issues, names) := nameIssues rest names
      ("Every project must have a name" :: issues, names)
    else if p.name ∈ names then
      let (issues, names) := nameIssues rest names
      (s!"Duplicate project name: \"{p.name}\"" :: issues, names)
    else nameIssues rest (names ++ [p.name])

/-- What is wrong with one entry of a dependency list. -/
def referenceIssue (names : List String) (p : ProjectConfig) (dep : String) : Option String :=
  if dep = p.name then some s!"Project \"{p.name}\" cannot depend on itself"
  else if dep ∉ names then
    some (s!"Project \"{p.name}\" depends on \"{dep}\", which does not exist. " ++
      "Available projects: " ++ ", ".intercalate names)
  else none

/-- The search for a cycle only runs where every reference is sound. -/
def cycleIssues (projects : List ProjectConfig) (references : List String) : List String :=
  if references = [] then
    match findCycle projects with
    | some cycle => ["Circular dependency detected: " ++ " → ".intercalate cycle]
    | none => []
  else []

/-- What is wrong with a project's `use`, on its own or merged into the config. -/
def useIssues (p : ProjectConfig) : List String :=
  match projectUseIssue p.name p.use with
  | some issue => [issue]
  | none =>
    match effectiveConfigForProject p with
    | .error found => found.map fun issue => s!"Project \"{p.name}\": {issue}"
    | .ok _ => []

/-- `validateProjects`: the issues it throws as one error, if there are any. -/
def validateProjects (projects : List ProjectConfig) : Except (List String) Unit :=
  if projects = [] then .ok ()
  else
    let (unnamed, names) := nameIssues projects []
    let references := projects.flatMap fun p => p.deps.filterMap (referenceIssue names p)
    let uses := projects.flatMap (useIssues effectiveConfigForProject)
    let issues := unnamed ++ references ++ cycleIssues projects references ++ uses
    if issues = [] then .ok () else .error issues

/-- `resolveProjects`: a config without projects runs as one project, and the others are
    validated first.  `defaultSignature` is the device signature of the config itself. -/
def resolveProjects (deviceSignature : Config → String) (defaultSignature : String)
    (projects : List ProjectConfig) : Except (List String) (List ResolvedProject) :=
  if projects = [] then .ok [{ name := "default", deviceSignature := defaultSignature }]
  else
    (validateProjects effectiveConfigForProject projects).bind fun _ =>
      projects.mapM fun p =>
        (effectiveConfigForProject p).map fun effective =>
          { name := p.name, dependencies := p.deps, deviceSignature := deviceSignature effective,
            workers := p.workers }

theorem nameIssues_nil {projects : List ProjectConfig} {names names' : List String}
    (h : nameIssues projects names = ([], names')) (hnodup : names.Nodup) :
    names' = names ++ projects.map ProjectConfig.name ∧ names'.Nodup := by
  induction projects generalizing names with
  | nil =>
    rw [nameIssues] at h
    cases h
    exact ⟨by simp, hnodup⟩
  | cons p rest ih =>
    rw [nameIssues] at h
    split_ifs at h with hempty hmem
    · cases h
    · cases h
    · have hnodup' : (names ++ [p.name]).Nodup :=
        List.nodup_append.mpr ⟨hnodup, List.nodup_singleton _, by
          rintro a ha b hb rfl
          exact hmem (List.mem_singleton.mp hb ▸ ha)⟩
      obtain ⟨heq, hn⟩ := ih h hnodup'
      exact ⟨by rw [heq, List.map_cons, List.append_assoc, List.singleton_append], hn⟩

/-- What acceptance says of the names and the dependencies. -/
structure Accepted (projects : List ProjectConfig) : Prop where
  names_nodup : (projects.map ProjectConfig.name).Nodup
  deps_exist : ∀ p ∈ projects, ∀ dep ∈ p.deps, dep ∈ projects.map ProjectConfig.name
  no_cycle : findCycle projects = none

theorem validateProjects_ok {projects : List ProjectConfig}
    (h : validateProjects effectiveConfigForProject projects = .ok ()) : Accepted projects := by
  unfold validateProjects at h
  by_cases hempty : projects = []
  · subst hempty
    exact ⟨List.nodup_nil, by simp, by simp [findCycle]⟩
  rw [if_neg hempty] at h
  generalize hnames : nameIssues projects [] = r at h
  obtain ⟨unnamed, names⟩ := r
  simp only at h
  generalize hrefs : (projects.flatMap fun p => p.deps.filterMap (referenceIssue names p)) = refs
    at h
  generalize hcycles : cycleIssues projects refs = cycles at h
  split at h
  case isFalse => cases h
  case isTrue hissues =>
    simp only [List.append_eq_nil_iff] at hissues
    obtain ⟨⟨⟨rfl, rfl⟩, rfl⟩, -⟩ := hissues
    rw [cycleIssues, if_pos rfl] at hcycles
    obtain ⟨rfl, hnodup⟩ := nameIssues_nil hnames List.nodup_nil
    rw [List.nil_append] at hnodup hrefs
    refine ⟨hnodup, ?_, ?_⟩
    · intro p hp dep hdep
      by_contra hmissing
      have hnone := List.filterMap_eq_nil_iff.mp (List.flatMap_eq_nil_iff.mp hrefs p hp) dep hdep
      unfold referenceIssue at hnone
      split_ifs at hnone
    · split at hcycles
      · cases hcycles
      · assumption

end Validate

end Tapsmith.Project
