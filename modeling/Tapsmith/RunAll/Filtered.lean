import Tapsmith.RunAll.Plan

namespace Tapsmith.RunAll

open Lib Lib.Entries Relation
open Project (ResolvedProject Needs topologicalSort)

/-!
# A filtered run

The "Run all" of a filtered tree, from the tree that is shown to the files that are run.

* `Context.Visible` — the tests of a tree; the row of a file that failed to load is the whole file;
* `planned_subperm`, `plan_ordered` — the files of a plan and its waves, whatever was sent;
* `runAll_filtered` — a filtered tree runs what it shows.
-/

/-! ### The message -/

/-- The fields of an entry, as they are sent. -/
def RunSelectionEntry.fields (entry : RunSelectionEntry) : Json.Object :=
  (("filePath", .str entry.filePath) :: entry.projectName.toList.map fun name =>
    ("projectName", Json.str name)) ++
    entry.tests.toList.map fun tests => ("tests", Json.arr (tests.map Json.str))

/-- The entries of a tree, as they are sent. -/
def message (tree : List TestTreeNode) : List Json :=
  (visibleRunSelection tree).map fun entry => .obj entry.fields

namespace RunSelectionEntry

variable (entry : RunSelectionEntry)

theorem opt_filePath : entry.fields.opt "filePath" = some (.str entry.filePath) := rfl

theorem opt_projectName : entry.fields.opt "projectName" = entry.projectName.map .str := by
  obtain ⟨filePath, _ | name, _ | tests⟩ := entry <;> rfl

theorem opt_tests :
    entry.fields.opt "tests" = entry.tests.map fun tests => .arr (tests.map .str) := by
  obtain ⟨filePath, _ | name, _ | tests⟩ := entry <;> rfl

end RunSelectionEntry

namespace Context

variable {ctx : Context} {tree : List TestTreeNode} {key : SelectionKey} {fullName : String}

/-- The rows of a tree are rows of the suite: their files are there, and under the projects that
    have them. -/
def OfSuite (ctx : Context) (tree : List TestTreeNode) : Prop :=
  ∀ row ∈ rowsAll none tree, ctx.selectionSuite.Has row.1

/-- A test that a tree shows, by its own row or by that of its file, which failed to load. -/
def Visible (ctx : Context) (tree : List TestTreeNode) (key : SelectionKey) (fullName : String) :
    Prop :=
  ∃ name, (key, name) ∈ rowsAll none tree ∧
    (name = fullName ∨ ctx.isWholeFileName key.2 name = true)

/-- **The message of a tree** asks for what the tree shows. -/
theorem asked_iff_visible (h : ctx.OfSuite tree) :
    ctx.Asked (message tree) key fullName ↔ ctx.Visible tree key fullName := by
  obtain ⟨hlisting, hlists⟩ := lists_visibleRunSelection tree
  constructor
  · rintro ⟨fields, hfields, hasks⟩
    obtain ⟨entry, hentry, heq⟩ := List.mem_map.mp hfields
    obtain rfl := Json.obj.inj heq
    obtain ⟨tests, htests, hne⟩ := hlisting.tests entry hentry
    -- a row of the entry tells where its file is
    obtain ⟨first, hfirst⟩ := List.exists_mem_of_ne_nil _ hne
    have hhas : ctx.selectionSuite.Has entry.key :=
      h _ ((hlists _ _).mp ⟨entry, hentry, rfl, tests, htests, hfirst⟩)
    have hkey : entry.key = key := by
      have hpath := hasks.filePath
      rw [entry.opt_filePath] at hpath
      have hfile : entry.filePath = key.2 := by simpa using hpath
      refine Prod.ext ?_ hfile
      show entry.projectName = key.1
      cases hproject : key.1 with
      | none =>
        obtain ⟨-, ⟨hnone, -⟩ | ⟨projects, p, -, -, hsome, -⟩⟩ := hasks.has
        · obtain ⟨-, ⟨-, hkey⟩ | ⟨projects, p, hsome, -⟩⟩ := hhas
          · exact hkey
          · cases hnone.symm.trans hsome
        · cases hproject.symm.trans hsome
      | some name =>
        have hname := hasks.project name hproject
        rw [entry.opt_projectName] at hname
        obtain ⟨name', hname', heq⟩ := Option.map_eq_some_iff.mp hname
        rw [hname', Json.str.inj heq]
    have htest := hasks.tests
    rw [entry.opt_tests, htests] at htest
    rcases htest with hnone | ⟨items, hitems, name, hname, hfull⟩
    · cases hnone
    · obtain rfl := Json.arr.inj (Option.some.inj hitems)
      obtain ⟨test, htest, heq⟩ := List.mem_map.mp hname
      obtain rfl := Json.str.inj heq
      exact ⟨test, (hlists _ _).mp ⟨entry, hentry, hkey, tests, htests, htest⟩, hfull⟩
  · rintro ⟨name, hrow, hfull⟩
    obtain ⟨entry, hentry, rfl, tests, htests, hname⟩ := (hlists _ _).mpr hrow
    refine ⟨entry.fields, List.mem_map_of_mem hentry, entry.opt_filePath, h _ hrow, ?_, .inr ?_⟩
    · intro project hproject
      rw [entry.opt_projectName]
      exact congrArg (Option.map Json.str) hproject
    · refine ⟨tests.map .str, ?_, name, List.mem_map_of_mem hname, hfull⟩
      rw [entry.opt_tests, htests]
      rfl

/-- A file of a project that one with a visible test depends on, directly or not. -/
def NeededBy (ctx : Context) (tree : List TestTreeNode) (key : SelectionKey) : Prop :=
  ∃ p ∈ ctx.projects, key.1 = some p.name ∧ key.2 ∈ p.testFiles ∧
    ∃ q ∈ ctx.projects, (∃ file name, ((some q.name, file), name) ∈ rowsAll none tree) ∧
      TransGen (Needs (ctx.projects.map RunProject.toResolvedProject)) q.name p.name

theorem needed_iff_neededBy (h : ctx.OfSuite tree) :
    ctx.Needed (message tree) key ↔ ctx.NeededBy tree key := by
  have hrow : ∀ q : RunProject, (∃ file fullName,
      ctx.Asked (message tree) (some q.name, file) fullName) ↔
      ∃ file name, ((some q.name, file), name) ∈ rowsAll none tree := by
    intro q
    constructor
    · rintro ⟨file, fullName, hasked⟩
      obtain ⟨name, hmem, -⟩ := (asked_iff_visible h).mp hasked
      exact ⟨file, name, hmem⟩
    · rintro ⟨file, name, hmem⟩
      exact ⟨file, name, (asked_iff_visible h).mpr ⟨name, hmem, .inl rfl⟩⟩
  simp only [Needed, NeededBy, hrow]

/-! ### The files of a plan -/

/-- The files that the suite lists, each under every project that lists it. -/
def listed (ctx : Context) : List SelectionKey :=
  if ctx.hasRealProjects then
    ctx.projects.flatMap fun p => p.testFiles.map (selectionKey (some p.name))
  else ctx.testFiles.map (selectionKey none)

end Context

def PlannedFile.key (file : PlannedFile) : SelectionKey :=
  selectionKey file.projectName file.filePath

theorem key_of_planFile {filePath : String} {project : Option RunProject}
    {selection : Option Selection} {file : PlannedFile}
    (h : planFile filePath project selection = some file) :
    file.key = selectionKey (projectLabel project) filePath := by
  cases selection with
  | none =>
    obtain rfl := Option.some.inj h
    rfl
  | some selection =>
    obtain ⟨names, -, rfl⟩ := Option.map_eq_some_iff.mp h
    rfl

theorem filterMap_keys_sublist {plan : String → Option PlannedFile} {key : String → SelectionKey}
    (h : ∀ path file, plan path = some file → file.key = key path) (paths : List String) :
    List.Sublist ((paths.filterMap plan).map PlannedFile.key) (paths.map key) := by
  induction paths with
  | nil => exact .slnil
  | cons path paths ih =>
    cases hplan : plan path with
    | none =>
      rw [List.filterMap_cons_none hplan]
      exact ih.cons _
    | some file =>
      rw [List.filterMap_cons_some hplan, List.map_cons, List.map_cons, h path file hplan]
      exact ih.cons_cons _

/-- In the order of the waves, the files that are planned are some of those of the projects. -/
theorem planned_waves_sublist {suite : RunAllSuite} {projectWaves : List (List RunProject)}
    (hwaves : suite.projectWaves = some projectWaves) (sel : Option Selection) (runDeps : Bool) :
    List.Sublist ((planRunAll suite sel runDeps).planned.map PlannedFile.key)
      (projectWaves.flatten.flatMap fun p =>
        p.testFiles.map (selectionKey (projectLabel (some p)))) := by
  simp only [planRunAll, hwaves, RunAllPlan.planned]
  generalize wholeProjects projectWaves.flatten sel runDeps = whole
  have hkept : List.Sublist
      ((projectWaves.map fun wave => (wave.map (planProject sel whole)).filter fun p =>
        sel.isNone || !p.files.isEmpty).filter fun wave => !wave.isEmpty).flatten
      (projectWaves.flatten.map (planProject sel whole)) := by
    rw [List.map_flatten]
    refine List.filter_sublist.flatten.trans ?_
    rw [← List.flatMap_def, ← List.flatMap_def]
    exact .flatMap_right _ fun wave _ => List.filter_sublist
  refine ((hkept.flatMap _).map _).trans ?_
  rw [List.flatMap_map, List.map_flatMap]
  exact .flatMap_right _ fun p _ => filterMap_keys_sublist (fun _ _ => key_of_planFile) _

/-- No project is planned in the wave of one that it depends on, or before it. -/
def DependencyOrder (waves : List (List PlannedProject)) : Prop :=
  (waves.Pairwise fun earlier later =>
    ∀ p ∈ earlier, ∀ q ∈ later, q.project.name ∉ p.project.dependencies) ∧
  ∀ wave ∈ waves, ∀ p ∈ wave, ∀ q ∈ wave, q.project.name ∉ p.project.dependencies

namespace Context

variable {ctx : Context} {tree : List TestTreeNode} {key : SelectionKey} {fullName : String}

/-- **At most once.**  Whatever was sent, only listed files are planned, and each at most as often
    as it is listed. -/
theorem planned_subperm (ctx : Context) (entries : Json) (runDeps : Bool) :
    List.Subperm ((ctx.plan entries runDeps).planned.map PlannedFile.key) ctx.listed := by
  unfold plan
  generalize some (resolveRunSelection entries ctx.selectionSuite) = sel
  cases hreal : ctx.hasRealProjects with
  | true =>
    have hwaves : ctx.runAllSuite.projectWaves = some ctx.projectWaves := if_pos hreal
    have hlisted : ctx.listed =
        ctx.projects.flatMap fun p => p.testFiles.map (selectionKey (some p.name)) := if_pos hreal
    have hperm := ctx.projectWaves_perm.flatMap_right fun p =>
      p.testFiles.map (selectionKey (projectLabel (some p)))
    have hlabels : (ctx.projects.flatMap fun p =>
        p.testFiles.map (selectionKey (projectLabel (some p)))) = ctx.listed := by
      rw [hlisted]
      refine List.flatMap_congr fun p hp => ?_
      rw [projectLabel_some (ctx.synthesized_of_real hreal p hp)]
    rw [← hlabels]
    exact (planned_waves_sublist hwaves sel runDeps).subperm.trans hperm.subperm
  | false =>
    have hwaves : ctx.runAllSuite.projectWaves = none := if_neg (by simp [hreal])
    have hlisted : ctx.listed = ctx.testFiles.map (selectionKey none) := if_neg (by simp [hreal])
    rw [hlisted]
    simp only [planRunAll, hwaves, RunAllPlan.planned]
    refine (filterMap_keys_sublist (fun path file hplan => ?_) _).subperm
    rw [key_of_planFile hplan]
    exact congrArg (selectionKey · path) (projectLabel_of_unreal hreal path)

theorem projectWaves_ordered (ctx : Context) :
    (ctx.projectWaves.Pairwise fun earlier later =>
      ∀ p ∈ earlier, ∀ q ∈ later, q.name ∉ p.dependencies) ∧
    ∀ wave ∈ ctx.projectWaves, ∀ p ∈ wave, ∀ q ∈ wave, q.name ∉ p.dependencies := by
  have hbehind := Project.sortWaves_behind ctx.distinct' (.start ctx.distinct') ctx.sorted
  simpa only [List.pairwise_map, List.forall_mem_map] using hbehind

/-- **In order.**  Whatever was sent, the waves are planned in the order of the dependencies. -/
theorem plan_ordered (ctx : Context) (entries : Json) (runDeps : Bool)
    {waves : List (List PlannedProject)} (h : ctx.plan entries runDeps = .waves waves) :
    DependencyOrder waves := by
  obtain ⟨hacross, hwithin⟩ := ctx.projectWaves_ordered
  unfold plan planRunAll at h
  split at h
  next projectWaves hwaves =>
    have hreal : projectWaves = ctx.projectWaves := by
      unfold runAllSuite at hwaves
      dsimp only at hwaves
      split at hwaves
      · exact (Option.some.inj hwaves).symm
      · cases hwaves
    subst hreal
    obtain rfl := RunAllPlan.waves.inj h
    constructor
    · refine List.Pairwise.filter _ (List.pairwise_map.mpr (hacross.imp ?_))
      intro earlier later hnot p hp q hq
      obtain ⟨p', hp', rfl⟩ := List.mem_map.mp (List.mem_of_mem_filter hp)
      obtain ⟨q', hq', rfl⟩ := List.mem_map.mp (List.mem_of_mem_filter hq)
      exact hnot p' hp' q' hq'
    · intro wave hwave p hp q hq
      obtain ⟨wave', hwave', rfl⟩ := List.mem_map.mp (List.mem_of_mem_filter hwave)
      obtain ⟨p', hp', rfl⟩ := List.mem_map.mp (List.mem_of_mem_filter hp)
      obtain ⟨q', hq', rfl⟩ := List.mem_map.mp (List.mem_of_mem_filter hq)
      exact hwithin wave' hwave' p' hp' q' hq'
  next => cases h

/-- **A filtered run** runs the tests that the tree shows, and with `runDeps` the projects that
    those with a visible test depend on.  Whatever else is sent, what is planned is listed, at most
    as often as it is listed and in the order of the dependencies, and holds what the valid entries
    ask for. -/
theorem runAll_filtered (ctx : Context) (tests : SelectionKey → String → Prop) (runDeps : Bool)
    (tree : List TestTreeNode) (htree : ctx.OfSuite tree) :
    (∀ key fullName, Runs tests (ctx.plan (.arr (message tree)) runDeps) key fullName ↔
      tests key fullName ∧
        (ctx.Visible tree key fullName ∨ (runDeps = true ∧ ctx.NeededBy tree key))) ∧
    (∀ entries, ((ctx.plan entries runDeps).planned.map PlannedFile.key).Subperm ctx.listed ∧
      ∀ waves, ctx.plan entries runDeps = .waves waves → DependencyOrder waves) ∧
    ∀ raws key fullName, Runs tests (ctx.plan (.arr raws) runDeps) key fullName ↔
      tests key fullName ∧
        (ctx.Asked raws key fullName ∨ (runDeps = true ∧ ctx.Needed raws key)) := by
  refine ⟨fun key fullName => ?_, fun entries => ⟨ctx.planned_subperm entries runDeps, ?_⟩, ?_⟩
  · rw [runs_iff, asked_iff_visible htree, needed_iff_neededBy htree]
  · exact fun waves h => ctx.plan_ordered entries runDeps h
  · exact fun raws => ctx.runs_iff tests raws runDeps

def setup : RunProject := { name := "setup", testFiles := ["setup.ts"] }

def e2e : RunProject := { name := "e2e", testFiles := ["pay.ts"], dependencies := ["setup"] }

theorem checkout_distinct : ([setup, e2e].map fun p => p.name).Nodup := by decide

theorem checkout_declared : ∀ p ∈ [setup, e2e], p.synthesized = false := by decide

theorem checkout_files :
    ∀ p ∈ [setup, e2e], ∀ file ∈ p.testFiles, file ∈ ["setup.ts", "pay.ts"] := by
  decide

theorem checkout_waves : ∀ wave ∈ [[setup], [e2e]], ∀ p ∈ wave, p ∈ [setup, e2e] := by decide

theorem checkout_sorted : topologicalSort ([setup, e2e].map RunProject.toResolvedProject) =
    .ok ([[setup], [e2e]].map (List.map RunProject.toResolvedProject)) := by
  rw [topologicalSort, Project.sortWaves, if_neg (by decide), dif_neg (by decide +kernel),
    Project.sortWaves, if_neg (by decide +kernel), dif_neg (by decide +kernel),
    Project.sortWaves, if_pos (by decide +kernel)]
  decide +kernel

/-- Two projects of one file each, of which the second depends on the first. -/
def checkout : Context where
  testFiles := ["setup.ts", "pay.ts"]
  projects := [setup, e2e]
  projectWaves := [[setup], [e2e]]
  isWholeFileName := fun file fullName => fullName = file
  distinct := checkout_distinct
  declared := .inl checkout_declared
  files := checkout_files
  waves := checkout_waves
  sorted := checkout_sorted

/-- A tree that shows one test of the second project. -/
def paying : List TestTreeNode :=
  [.mk .project "e2e" "" "" [.mk .file "pay.ts" "pay.ts" "" [.mk .test "pays" "pay.ts" "pays" []]]]

/-- The setup of a project with a visible test is run before it. -/
theorem runAll_filtered_paying :
    Runs (fun _ _ => True) (checkout.plan (.arr (message paying)) true)
      (some "setup", "setup.ts") "signs in" := by
  have htree : checkout.OfSuite paying := by
    intro row hrow
    obtain rfl := List.mem_singleton.mp hrow
    exact (has_iff_of_real rfl).mpr ⟨e2e, by decide, rfl, by decide⟩
  have hneeds : Needs (checkout.projects.map RunProject.toResolvedProject) "e2e" "setup" :=
    ⟨e2e.toResolvedProject, by decide, rfl, by decide⟩
  have hshown : (((some "e2e", "pay.ts") : SelectionKey), "pays") ∈ rowsAll none paying :=
    List.mem_singleton.mpr rfl
  have hneeded : checkout.NeededBy paying (some "setup", "setup.ts") :=
    ⟨setup, by decide, rfl, by decide, e2e, by decide, ⟨"pay.ts", "pays", hshown⟩, .single hneeds⟩
  exact ((checkout.runAll_filtered (fun _ _ => True) true paying htree).1 _ _).mpr
    ⟨trivial, .inr ⟨rfl, hneeded⟩⟩

end Context

end Tapsmith.RunAll
