import Tapsmith.RunAll.Selection

namespace Tapsmith.RunAll

open Lib Lib.Entries Lib.OrderedSet Relation
open Project (ResolvedProject UseOptions Needs topologicalSort collectTransitiveDeps)

/-!
# Run all

What a "Run all" dispatches, as `run-all-plan.ts` plans it and `ui-server.ts` asks for it.

* `Context` — the files and projects that the server has discovered, and what it makes of them;
* `planRunAll` — the files to run, in waves where there are projects;
* `runs_iff` — a plan runs what the message asks for, and the projects that run for it.
-/

/-! ### The plan -/

/-- A project as the server has it: `synthesized` marks the one that stands for no projects. -/
structure RunProject extends ResolvedProject where
  use : Option UseOptions := none
  synthesized : Bool := false
deriving DecidableEq

def projectLabel (project : Option RunProject) : Option String :=
  project.bind fun p => if p.synthesized then none else some p.name

structure PlannedFile where
  filePath : String
  projectUseOptions : Option UseOptions := none
  projectName : Option String := none
  fullNames : Option (List String) := none
deriving DecidableEq

structure PlannedProject where
  project : RunProject
  files : List PlannedFile
deriving DecidableEq

inductive RunAllPlan
  | waves (waves : List (List PlannedProject))
  | files (files : List PlannedFile)
deriving DecidableEq

structure RunAllSuite where
  testFiles : List String
  projectWaves : Option (List (List RunProject)) := none
  projectForFile : String → Option RunProject

def plannedFile (filePath : String) (project : Option RunProject)
    (fullNames : Option (List String)) : PlannedFile where
  filePath
  projectUseOptions := project.bind RunProject.use
  projectName := projectLabel project
  fullNames

/-- One file under one project; nothing where the selection leaves it out. -/
def planFile (filePath : String) (project : Option RunProject) (selection : Option Selection) :
    Option PlannedFile :=
  match selection with
  | none => some (plannedFile filePath project none)
  | some selection =>
    (get (selectionKey (projectLabel project) filePath) selection).map
      (plannedFile filePath project)

/-- The selection has a file of the project. -/
def hasSelectedFile (selection : Selection) (project : RunProject) : Bool :=
  project.testFiles.any fun file =>
    (get (selectionKey (projectLabel (some project)) file) selection).isSome

/-- The dependencies of the selected projects, which run whole. -/
def wholeProjects (projects : List RunProject) (selection : Option Selection) (runDeps : Bool) :
    List String :=
  match selection, runDeps with
  | some selection, true =>
    collectTransitiveDeps
      (addAll [] ((projects.filter (hasSelectedFile selection)).flatMap fun p => p.dependencies))
      (projects.map RunProject.toResolvedProject)
  | _, _ => []

def planProject (selection : Option Selection) (whole : List String) (project : RunProject) :
    PlannedProject where
  project
  files := project.testFiles.filterMap fun file =>
    planFile file (some project) (if project.name ∈ whole then none else selection)

def planRunAll (suite : RunAllSuite) (selection : Option Selection) (runDeps : Bool) : RunAllPlan :=
  match suite.projectWaves with
  | some projectWaves =>
    let whole := wholeProjects projectWaves.flatten selection runDeps
    -- a run without a selection keeps the projects without files
    .waves ((projectWaves.map fun wave =>
      (wave.map (planProject selection whole)).filter fun p =>
        selection.isNone || !p.files.isEmpty).filter fun wave => !wave.isEmpty)
  | none =>
    .files (suite.testFiles.filterMap fun file =>
      planFile file (suite.projectForFile file) selection)

/-! ### The server -/

/-- What the server has discovered.  Its projects are declared by the config, which has distinct
    names for them, or there is only the synthesized one; the waves are those of the sort. -/
structure Context where
  testFiles : List String
  projects : List RunProject
  projectWaves : List (List RunProject)
  isWholeFileName : String → String → Bool
  distinct : (projects.map fun p => p.name).Nodup
  declared : (∀ p ∈ projects, p.synthesized = false) ∨ (∃ p, projects = [p] ∧ p.synthesized = true)
  files : ∀ p ∈ projects, ∀ file ∈ p.testFiles, file ∈ testFiles
  waves : ∀ wave ∈ projectWaves, ∀ p ∈ wave, p ∈ projects
  sorted : topologicalSort (projects.map RunProject.toResolvedProject) =
    .ok (projectWaves.map (List.map RunProject.toResolvedProject))

namespace Context

variable (ctx : Context)

def hasRealProjects : Bool :=
  !ctx.projects.isEmpty && !(ctx.projects.length = 1 && ctx.projects.any RunProject.synthesized)

/-- The last project that has the file. -/
def projectForFile (file : String) : Option RunProject :=
  (ctx.projects.filter fun p => file ∈ p.testFiles).getLast?

def selectionSuite : SelectionSuite where
  testFiles := ctx.testFiles
  projects :=
    if ctx.hasRealProjects then some (ctx.projects.map RunProject.toResolvedProject) else none
  isWholeFileName := ctx.isWholeFileName

def runAllSuite : RunAllSuite where
  testFiles := ctx.testFiles
  projectWaves := if ctx.hasRealProjects then some ctx.projectWaves else none
  projectForFile := ctx.projectForFile

/-- What the server plans for the selection of a message. -/
def plan (entries : Json) (runDeps : Bool) : RunAllPlan :=
  planRunAll ctx.runAllSuite (some (resolveRunSelection entries ctx.selectionSuite)) runDeps

end Context

/-! ### What a plan runs -/

/-- The files of a plan, in order. -/
def RunAllPlan.planned : RunAllPlan → List PlannedFile
  | .waves ws => ws.flatten.flatMap PlannedProject.files
  | .files fs => fs

/-- A plan runs a test: its file is planned under its project, whole or with the test among its
    names.  `tests` are the tests that the files hold, by project. -/
def Runs (tests : SelectionKey → String → Prop) (plan : RunAllPlan) (key : SelectionKey)
    (fullName : String) : Prop :=
  tests key fullName ∧ ∃ file ∈ plan.planned, selectionKey file.projectName file.filePath = key ∧
    Covers file.fullNames fullName

section Planned

variable {selection : Selection} {whole : List String} {file : PlannedFile} {key : SelectionKey}
  {fullName : String} {projects : List RunProject} {project : RunProject}

theorem projectLabel_some (h : project.synthesized = false) :
    projectLabel (some project) = some project.name := by
  simp [projectLabel, h]

theorem mem_planned_waves {suite : RunAllSuite} {projectWaves : List (List RunProject)}
    (hwaves : suite.projectWaves = some projectWaves) {sel : Option Selection} {runDeps : Bool} :
    file ∈ (planRunAll suite sel runDeps).planned ↔ ∃ p ∈ projectWaves.flatten,
      file ∈ (planProject sel (wholeProjects projectWaves.flatten sel runDeps) p).files := by
  simp only [planRunAll, hwaves, RunAllPlan.planned, List.mem_flatMap, List.mem_flatten,
    List.mem_filter, List.mem_map]
  constructor
  · rintro ⟨planned, ⟨wave, ⟨⟨wave', hwave', rfl⟩, -⟩, hplanned⟩, hfile⟩
    obtain ⟨hmem, -⟩ := List.mem_filter.mp hplanned
    obtain ⟨p, hp, rfl⟩ := List.mem_map.mp hmem
    exact ⟨p, ⟨wave', hwave', hp⟩, hfile⟩
  · rintro ⟨p, ⟨wave, hwave, hp⟩, hfile⟩
    -- what has a file is not filtered out, nor is its wave
    have hkept : planProject sel (wholeProjects projectWaves.flatten sel runDeps) p ∈
        (wave.map (planProject sel (wholeProjects projectWaves.flatten sel runDeps))).filter
          fun p => sel.isNone || !p.files.isEmpty := by
      refine List.mem_filter.mpr ⟨List.mem_map_of_mem hp, ?_⟩
      have hne := List.ne_nil_of_mem hfile
      simp [hne]
    refine ⟨_, ⟨_, ⟨⟨wave, hwave, rfl⟩, ?_⟩, hkept⟩, hfile⟩
    have hne := List.ne_nil_of_mem hkept
    simpa using hne

theorem mem_planned_files {suite : RunAllSuite} (hwaves : suite.projectWaves = none)
    {sel : Option Selection} {runDeps : Bool} : file ∈ (planRunAll suite sel runDeps).planned ↔
      ∃ path ∈ suite.testFiles, planFile path (suite.projectForFile path) sel = some file := by
  simp only [planRunAll, hwaves, RunAllPlan.planned, List.mem_filterMap]

/-- What a project runs: all of its files where it runs whole, else what is selected of them. -/
theorem exists_planned (hdeclared : project.synthesized = false) :
    (∃ file ∈ (planProject (some selection) whole project).files,
      selectionKey file.projectName file.filePath = key ∧ Covers file.fullNames fullName) ↔
      key.1 = some project.name ∧ key.2 ∈ project.testFiles ∧
        (project.name ∈ whole ∨ Selects selection key fullName) := by
  have hlabel := projectLabel_some hdeclared
  constructor
  · rintro ⟨file, hfile, rfl, hcovers⟩
    obtain ⟨path, hpath, hplan⟩ := List.mem_filterMap.mp hfile
    split at hplan
    next hwhole =>
      obtain rfl := Option.some.inj hplan
      exact ⟨hlabel, hpath, .inl hwhole⟩
    next hwhole =>
      obtain ⟨names, hnames, rfl⟩ := Option.map_eq_some_iff.mp hplan
      exact ⟨hlabel, hpath, .inr ⟨names, hnames, hcovers⟩⟩
  · obtain ⟨projectName, path⟩ := key
    rintro ⟨rfl, hpath, hrun⟩
    by_cases hwhole : project.name ∈ whole
    · refine ⟨plannedFile path (some project) none,
        List.mem_filterMap.mpr ⟨path, hpath, ?_⟩, congrArg (selectionKey · path) hlabel, covers_none⟩
      rw [if_pos hwhole]
      rfl
    · obtain ⟨names, hnames, hcovers⟩ := hrun.resolve_left hwhole
      refine ⟨plannedFile path (some project) names,
        List.mem_filterMap.mpr ⟨path, hpath, ?_⟩, congrArg (selectionKey · path) hlabel, hcovers⟩
      rw [if_neg hwhole, planFile, hlabel]
      exact congrArg (Option.map _) hnames

/-- The projects that run whole: those that a project with a selected file depends on. -/
theorem mem_wholeProjects (hdistinct : (projects.map fun p => p.name).Nodup) {runDeps : Bool}
    {name : String} : name ∈ wholeProjects projects (some selection) runDeps ↔
      runDeps = true ∧ ∃ q ∈ projects, hasSelectedFile selection q = true ∧
        TransGen (Needs (projects.map RunProject.toResolvedProject)) q.name name := by
  have hdistinct' : ((projects.map RunProject.toResolvedProject).map ResolvedProject.name).Nodup := by
    rw [List.map_map]
    exact hdistinct
  cases runDeps with
  | false => simp [wholeProjects]
  | true =>
    show name ∈ collectTransitiveDeps _ _ ↔ _
    rw [Project.mem_collectTransitiveDeps hdistinct']
    constructor
    · rintro ⟨start, hstart, hreach⟩
      rw [mem_addAll, List.mem_flatMap] at hstart
      obtain ⟨q, hq, hdep⟩ := hstart.resolve_left List.not_mem_nil
      obtain ⟨hmem, hselected⟩ := List.mem_filter.mp hq
      exact ⟨rfl, q, hmem, hselected, .head' ⟨_, List.mem_map_of_mem hmem, rfl, hdep⟩ hreach⟩
    · rintro ⟨-, q, hq, hselected, htrans⟩
      obtain ⟨start, ⟨r, hr, hname, hdep⟩, hreach⟩ := TransGen.head'_iff.mp htrans
      obtain ⟨q', hq', rfl⟩ := List.mem_map.mp hr
      obtain rfl := List.inj_on_of_nodup_map hdistinct hq' hq hname
      refine ⟨start, ?_, hreach⟩
      rw [mem_addAll, List.mem_flatMap]
      exact .inr ⟨q', List.mem_filter.mpr ⟨hq, hselected⟩, hdep⟩

end Planned

/-! ### The projects of the server -/

namespace Context

variable {ctx : Context}

theorem distinct' (ctx : Context) :
    ((ctx.projects.map RunProject.toResolvedProject).map ResolvedProject.name).Nodup := by
  rw [List.map_map]
  exact ctx.distinct

theorem synthesized_of_real (h : ctx.hasRealProjects = true) :
    ∀ p ∈ ctx.projects, p.synthesized = false := by
  rcases ctx.declared with hall | ⟨p, hp, hsyn⟩
  · exact hall
  · simp [hasRealProjects, hp, hsyn] at h

theorem projectLabel_of_unreal (h : ctx.hasRealProjects = false) (file : String) :
    projectLabel (ctx.projectForFile file) = none := by
  cases hp : ctx.projectForFile file with
  | none => rfl
  | some p =>
    have hmem : p ∈ ctx.projects := List.mem_of_mem_filter (List.mem_of_getLast? hp)
    rcases ctx.declared with hall | ⟨q, hq, hsyn⟩
    · exfalso
      have hfalse : ctx.projects.any RunProject.synthesized = false := by
        rw [List.any_eq_false]
        exact fun r hr => by simp [hall r hr]
      simp [hasRealProjects, hfalse] at h
      rw [h] at hmem
      exact absurd hmem List.not_mem_nil
    · rw [hq, List.mem_singleton] at hmem
      simp [projectLabel, hmem, hsyn]

/-- The waves hold the projects. -/
theorem mem_projectWaves {p : RunProject} : p ∈ ctx.projectWaves.flatten ↔ p ∈ ctx.projects := by
  constructor
  · intro hp
    obtain ⟨wave, hwave, hp⟩ := List.mem_flatten.mp hp
    exact ctx.waves wave hwave p hp
  · intro hp
    have horder := (Project.sortWaves_order ctx.distinct' (.start ctx.distinct') ctx.sorted).2
      p.toResolvedProject (List.mem_map_of_mem hp) List.not_mem_nil
    rw [← List.map_flatten] at horder
    obtain ⟨q, hq, heq⟩ := List.mem_map.mp horder
    have hq' : q ∈ ctx.projects := by
      obtain ⟨wave, hwave, hq⟩ := List.mem_flatten.mp hq
      exact ctx.waves wave hwave q hq
    obtain rfl := List.inj_on_of_nodup_map ctx.distinct hq' hp (congrArg ResolvedProject.name heq)
    exact hq

theorem projectWaves_nodup (ctx : Context) :
    (ctx.projectWaves.flatten.map fun p => p.name).Nodup := by
  have hnodup := Project.sortWaves_names_nodup ctx.distinct' (.start ctx.distinct') ctx.sorted
  rw [← List.map_flatten, List.map_map] at hnodup
  exact hnodup

theorem projectWaves_perm (ctx : Context) : ctx.projectWaves.flatten.Perm ctx.projects :=
  (List.perm_ext_iff_of_nodup (.of_map _ ctx.projectWaves_nodup) (.of_map _ ctx.distinct)).mpr
    fun _ => mem_projectWaves

/-- What the projects need, however they are ordered. -/
theorem needs_projectWaves (ctx : Context) :
    Needs (ctx.projectWaves.flatten.map RunProject.toResolvedProject) =
      Needs (ctx.projects.map RunProject.toResolvedProject) := by
  funext a b
  have hperm := ctx.projectWaves_perm.map RunProject.toResolvedProject
  simp only [Needs, hperm.mem_iff]

theorem distinct_suite (ctx : Context) : ctx.selectionSuite.Distinct := by
  intro projects hprojects
  unfold selectionSuite at hprojects
  dsimp only at hprojects
  split at hprojects
  · obtain rfl := Option.some.inj hprojects
    exact ctx.distinct'
  · cases hprojects

/-- With projects, a key of the suite is a declared project and one of its files. -/
theorem has_iff_of_real (h : ctx.hasRealProjects = true) {key : SelectionKey} :
    ctx.selectionSuite.Has key ↔
      ∃ p ∈ ctx.projects, key.1 = some p.name ∧ key.2 ∈ p.testFiles := by
  have hprojects : ctx.selectionSuite.projects =
      some (ctx.projects.map RunProject.toResolvedProject) := by
    rw [selectionSuite]
    exact if_pos h
  constructor
  · rintro ⟨-, hnone | ⟨projects, p, hsome, hp, hkey, hfile⟩⟩
    · cases hprojects.symm.trans hnone.1
    · obtain rfl := Option.some.inj (hprojects.symm.trans hsome)
      obtain ⟨q, hq, rfl⟩ := List.mem_map.mp hp
      exact ⟨q, hq, hkey, hfile⟩
  · rintro ⟨p, hp, hkey, hfile⟩
    exact ⟨ctx.files p hp key.2 hfile,
      .inr ⟨_, p.toResolvedProject, hprojects, List.mem_map_of_mem hp, hkey, hfile⟩⟩

/-- Without projects, a key of the suite is one of its files. -/
theorem has_iff_of_unreal (h : ctx.hasRealProjects = false) {key : SelectionKey} :
    ctx.selectionSuite.Has key ↔ key.1 = none ∧ key.2 ∈ ctx.testFiles := by
  have hprojects : ctx.selectionSuite.projects = none := by
    rw [selectionSuite]
    exact if_neg (by simp [h])
  constructor
  · rintro ⟨hfile, hnone | ⟨projects, p, hsome, -⟩⟩
    · exact ⟨hnone.2, hfile⟩
    · cases hprojects.symm.trans hsome
  · rintro ⟨hnone, hfile⟩
    exact ⟨hfile, .inl ⟨hprojects, hnone⟩⟩

/-- A test that an entry of a message asks for. -/
def Asked (ctx : Context) (raws : List Json) (key : SelectionKey) (fullName : String) : Prop :=
  ∃ fields, .obj fields ∈ raws ∧ Asks ctx.selectionSuite fields key fullName

/-- A file of a project that a project with a selected file depends on, directly or not. -/
def Needed (ctx : Context) (raws : List Json) (key : SelectionKey) : Prop :=
  ∃ p ∈ ctx.projects, key.1 = some p.name ∧ key.2 ∈ p.testFiles ∧
    ∃ q ∈ ctx.projects, (∃ file fullName, ctx.Asked raws (some q.name, file) fullName) ∧
      TransGen (Needs (ctx.projects.map RunProject.toResolvedProject)) q.name p.name

theorem selects_iff_asked (raws : List Json) {key : SelectionKey} {fullName : String} :
    Selects (resolveRunSelection (.arr raws) ctx.selectionSuite) key fullName ↔
      ctx.Asked raws key fullName :=
  mem_resolve ctx.distinct_suite raws

theorem hasSelectedFile_iff (hreal : ctx.hasRealProjects = true) (raws : List Json)
    {q : RunProject} (hq : q ∈ ctx.projects) :
    hasSelectedFile (resolveRunSelection (.arr raws) ctx.selectionSuite) q = true ↔
      ∃ file fullName, ctx.Asked raws (some q.name, file) fullName := by
  have hlabel := projectLabel_some (ctx.synthesized_of_real hreal q hq)
  unfold hasSelectedFile
  rw [List.any_eq_true]
  constructor
  · rintro ⟨file, -, hsome⟩
    rw [hlabel] at hsome
    obtain ⟨names, hget⟩ := Option.isSome_iff_exists.mp hsome
    obtain ⟨fullName, hcovers⟩ := filled_resolve raws _ names hget
    exact ⟨file, fullName, (selects_iff_asked raws).mp ⟨names, hget, hcovers⟩⟩
  · rintro ⟨file, fullName, hasked⟩
    obtain ⟨names, hget, -⟩ := (selects_iff_asked raws).mpr hasked
    obtain ⟨fields, -, hasks⟩ := hasked
    obtain ⟨p, hp, hname, hfile⟩ := (has_iff_of_real hreal).mp hasks.has
    obtain rfl := List.inj_on_of_nodup_map ctx.distinct hp hq (Option.some.inj hname).symm
    refine ⟨file, hfile, ?_⟩
    rw [hlabel]
    exact Option.isSome_iff_exists.mpr ⟨names, hget⟩

/-- With projects, a file is planned in its project. -/
theorem exists_planned_of_real (ctx : Context) (hreal : ctx.hasRealProjects = true)
    (raws : List Json) (runDeps : Bool) (key : SelectionKey) (fullName : String) :
    (∃ file ∈ (ctx.plan (.arr raws) runDeps).planned,
      selectionKey file.projectName file.filePath = key ∧ Covers file.fullNames fullName) ↔
      ctx.Asked raws key fullName ∨ (runDeps = true ∧ ctx.Needed raws key) := by
  have hwaves : ctx.runAllSuite.projectWaves = some ctx.projectWaves := if_pos hreal
  have hplanned : (∃ file ∈ (ctx.plan (.arr raws) runDeps).planned,
      selectionKey file.projectName file.filePath = key ∧ Covers file.fullNames fullName) ↔
      ∃ p ∈ ctx.projects, key.1 = some p.name ∧ key.2 ∈ p.testFiles ∧
        ((runDeps = true ∧ ∃ q ∈ ctx.projects,
          (∃ file fullName, ctx.Asked raws (some q.name, file) fullName) ∧
            TransGen (Needs (ctx.projects.map RunProject.toResolvedProject)) q.name p.name) ∨
          ctx.Asked raws key fullName) := by
    simp only [plan, mem_planned_waves hwaves]
    constructor
    · rintro ⟨file, ⟨p, hp, hfile⟩, hkey, hcovers⟩
      have hmem := mem_projectWaves.mp hp
      have hsyn := ctx.synthesized_of_real hreal p hmem
      obtain ⟨hname, hpath, hrun⟩ := (exists_planned hsyn).mp ⟨file, hfile, hkey, hcovers⟩
      refine ⟨p, hmem, hname, hpath, hrun.imp (fun hwhole => ?_) (selects_iff_asked raws).mp⟩
      obtain ⟨hdeps, q, hq, hselected, htrans⟩ := (mem_wholeProjects ctx.projectWaves_nodup).mp hwhole
      rw [ctx.needs_projectWaves] at htrans
      have hq' := mem_projectWaves.mp hq
      exact ⟨hdeps, q, hq', (hasSelectedFile_iff hreal raws hq').mp hselected, htrans⟩
    · rintro ⟨p, hp, hname, hpath, hrun⟩
      have hsyn := ctx.synthesized_of_real hreal p hp
      have hwhole : p.name ∈ wholeProjects ctx.projectWaves.flatten
            (some (resolveRunSelection (.arr raws) ctx.selectionSuite)) runDeps ∨
          Selects (resolveRunSelection (.arr raws) ctx.selectionSuite) key fullName := by
        refine hrun.imp ?_ (selects_iff_asked raws).mpr
        rintro ⟨hdeps, q, hq, hasked, htrans⟩
        rw [mem_wholeProjects ctx.projectWaves_nodup, ctx.needs_projectWaves]
        exact ⟨hdeps, q, mem_projectWaves.mpr hq, (hasSelectedFile_iff hreal raws hq).mpr hasked,
          htrans⟩
      obtain ⟨file, hfile, hkey, hcovers⟩ := (exists_planned hsyn).mpr ⟨hname, hpath, hwhole⟩
      exact ⟨file, ⟨p, mem_projectWaves.mpr hp, hfile⟩, hkey, hcovers⟩
  rw [hplanned]
  constructor
  · rintro ⟨p, hp, hname, hpath, ⟨hdeps, hneeded⟩ | hasked⟩
    · exact .inr ⟨hdeps, p, hp, hname, hpath, hneeded⟩
    · exact .inl hasked
  · rintro (hasked | ⟨hdeps, p, hp, hname, hpath, hneeded⟩)
    · obtain ⟨fields, -, hasks⟩ := id hasked
      obtain ⟨p, hp, hname, hpath⟩ := (has_iff_of_real hreal).mp hasks.has
      exact ⟨p, hp, hname, hpath, .inr hasked⟩
    · exact ⟨p, hp, hname, hpath, .inl ⟨hdeps, hneeded⟩⟩

/-- Without projects, a file is planned on its own, and nothing is needed. -/
theorem exists_planned_of_unreal (ctx : Context) (hreal : ctx.hasRealProjects = false)
    (raws : List Json) (runDeps : Bool) (key : SelectionKey) (fullName : String) :
    (∃ file ∈ (ctx.plan (.arr raws) runDeps).planned,
      selectionKey file.projectName file.filePath = key ∧ Covers file.fullNames fullName) ↔
      ctx.Asked raws key fullName ∨ (runDeps = true ∧ ctx.Needed raws key) := by
  have hwaves : ctx.runAllSuite.projectWaves = none := if_neg (by simp [hreal])
  have hasked : ctx.Asked raws key fullName ∨ (runDeps = true ∧ ctx.Needed raws key) ↔
      ctx.Asked raws key fullName := by
    refine or_iff_left ?_
    rintro ⟨-, p, -, -, -, q, -, ⟨file, name, fields, -, hasks⟩, -⟩
    have hnone := ((has_iff_of_unreal hreal).mp hasks.has).1
    cases hnone
  have hlabel : ∀ path, projectLabel (ctx.runAllSuite.projectForFile path) = none :=
    projectLabel_of_unreal hreal
  rw [hasked, ← selects_iff_asked]
  simp only [plan, mem_planned_files hwaves]
  constructor
  · rintro ⟨file, ⟨path, -, hplan⟩, rfl, hcovers⟩
    rw [planFile, hlabel] at hplan
    obtain ⟨names, hnames, rfl⟩ := Option.map_eq_some_iff.mp hplan
    refine ⟨names, ?_, hcovers⟩
    rw [plannedFile, hlabel]
    exact hnames
  · rintro ⟨names, hnames, hcovers⟩
    have hselects : ctx.Asked raws key fullName :=
      (selects_iff_asked raws).mp ⟨names, hnames, hcovers⟩
    obtain ⟨fields, -, hasks⟩ := hselects
    obtain ⟨hnone, hfile⟩ := (has_iff_of_unreal hreal).mp hasks.has
    have hkey : selectionKey none key.2 = key := Prod.ext hnone.symm rfl
    refine ⟨plannedFile key.2 (ctx.projectForFile key.2) names, ⟨key.2, hfile, ?_⟩, ?_, hcovers⟩
    · rw [planFile, hlabel, hkey, hnames]
      rfl
    · rw [plannedFile, projectLabel_of_unreal hreal]
      exact hkey

/-- **What is run**: what the message asks for, and with `runDeps` all files of the projects that
    those with a selected file depend on. -/
theorem runs_iff (ctx : Context) (tests : SelectionKey → String → Prop) (raws : List Json)
    (runDeps : Bool) (key : SelectionKey) (fullName : String) :
    Runs tests (ctx.plan (.arr raws) runDeps) key fullName ↔ tests key fullName ∧
      (ctx.Asked raws key fullName ∨ (runDeps = true ∧ ctx.Needed raws key)) := by
  refine and_congr_right fun _ => ?_
  cases hreal : ctx.hasRealProjects with
  | true => exact ctx.exists_planned_of_real hreal raws runDeps key fullName
  | false => exact ctx.exists_planned_of_unreal hreal raws runDeps key fullName

end Context

end Tapsmith.RunAll
