import Tapsmith.Dispatch.ExactlyOnce
import Tapsmith.Project.Sort

namespace Tapsmith.Dispatch

open Lib.Machine Lib.OrderedSet Tapsmith.Project

/-!
# Projects wait for their dependencies

The loop of `runParallel` over the waves of the project graph.  A project with a failed dependency
is skipped and counts as failed itself; the files of the others are dispatched together, as one
wave of `dispatchWaveInner`.

* `Gate.Step` — one iteration of the loop;
* `Gate.StepSpec` — what it amounts to;
* `GateInv` — which projects are recorded as failed, and what has become of each project;
* `projects_gated` — so a file is only dispatched behind its dependencies, and a project is
  skipped just if one of them has failed.
-/

/-! ### The loop -/

/-- The variables of the loop. -/
structure Gate where
  projectWaves : List (List ResolvedProject)
  failedProjects : List String := []
  allResults : List TestResult := []
deriving DecidableEq

/-- The files of a project, as they are dispatched. -/
def filesOf (project : ResolvedProject) : List TaggedFile :=
  project.testFiles.map fun file => { filePath := file, projectName := some project.name }

/-- The results of a project that is skipped. -/
def skippedResults (project : ResolvedProject) : List TestResult :=
  project.testFiles.map fun file =>
    { name := basename file, fullName := basename file, status := .skipped, durationMs := 0,
      project := some project.name }

/-- The first loop over a wave: blocked projects are skipped, the files of the others collected. -/
def planProject (s : Gate × List TaggedFile) (project : ResolvedProject) :
    Gate × List TaggedFile :=
  match project.dependencies.find? (· ∈ s.1.failedProjects) with
  | some _ =>
    ({ s.1 with
      allResults := s.1.allResults ++ skippedResults project
      failedProjects := addAll s.1.failedProjects [project.name] }, s.2)
  | none => (s.1, s.2 ++ filesOf project)

/-- The second loop: a project with a failed result among those of the wave has failed. -/
def recordFailure (waveResults : List TestResult) (failedProjects : List String)
    (project : ResolvedProject) : List String :=
  if project.name ∈ failedProjects then failedProjects
  else if waveResults.any fun r => r.status = .failed ∧ r.project = some project.name then
    addAll failedProjects [project.name]
  else failedProjects

/-- What a resolved `dispatchWave` leaves behind: the files that were done, with their results,
    and `allResults`.  A worker puts the project of the file into each of its results. -/
def Dispatched (files : List TaggedFile) (before : List TestResult)
    (done : List (TaggedFile × List TestResult)) (after : List TestResult) : Prop :=
  (∃ (workerIds : List ℕ) (retired : ℕ → Bool) (sendings : ℕ → Sending) (es : List Event) (w : Wave),
    workerIds.Nodup ∧
      Run (Wave.Step workerIds) (Wave.start workerIds retired files before sendings) es w ∧
      w.Resolved ∧ dones w.calls = done ∧ w.allResults = after) ∧
    ∀ d ∈ done, ∀ r ∈ d.2, r.project = d.1.projectName

/-- An iteration: the wave, the files that were dispatched, and the files that were done. -/
structure WaveEvent where
  wave : List ResolvedProject
  dispatched : List TaggedFile
  done : List (TaggedFile × List TestResult)

/-- One iteration of the loop.  Where the dispatch rejects, the run ends with its error. -/
inductive Gate.Step : Gate → WaveEvent → Gate → Prop
  | passedOver {s : Gate} {wave : List ResolvedProject} {rest : List (List ResolvedProject)}
      (hwaves : s.projectWaves = wave :: rest) (hnone : (wave.foldl planProject (s, [])).2 = []) :
      Gate.Step s ⟨wave, [], []⟩ { (wave.foldl planProject (s, [])).1 with projectWaves := rest }
  | dispatched {s : Gate} {wave : List ResolvedProject} {rest : List (List ResolvedProject)}
      {done : List (TaggedFile × List TestResult)} {after : List TestResult}
      (hwaves : s.projectWaves = wave :: rest) (hsome : (wave.foldl planProject (s, [])).2 ≠ [])
      (hdispatch : Dispatched (wave.foldl planProject (s, [])).2
        (wave.foldl planProject (s, [])).1.allResults done after) :
      Gate.Step s ⟨wave, (wave.foldl planProject (s, [])).2, done⟩
        { projectWaves := rest
          failedProjects := wave.foldl
            (recordFailure (after.drop (wave.foldl planProject (s, [])).1.allResults.length))
            (wave.foldl planProject (s, [])).1.failedProjects
          allResults := after }

/-! ### What an iteration amounts to -/

/-- A failed project is among the dependencies. -/
def BlockedBy (failedProjects : List String) (project : ResolvedProject) : Prop :=
  ∃ dep ∈ project.dependencies, dep ∈ failedProjects

instance (failedProjects : List String) (project : ResolvedProject) :
    Decidable (BlockedBy failedProjects project) :=
  inferInstanceAs (Decidable (∃ dep ∈ project.dependencies, dep ∈ failedProjects))

/-- Some file of the project was done with a failed result. -/
def Failed (done : List (TaggedFile × List TestResult)) (name : String) : Prop :=
  ∃ d ∈ done, d.1.projectName = some name ∧ ∃ r ∈ d.2, r.status = .failed

section Plan

variable {wave : List ResolvedProject} {s : Gate}

/-- What an iteration amounts to. -/
structure Gate.StepSpec (s : Gate) (e : WaveEvent) (s' : Gate) : Prop where
  waves : s.projectWaves = e.wave :: s'.projectWaves
  dispatched : e.dispatched =
    (e.wave.filter fun p => ¬ BlockedBy s.failedProjects p).flatMap filesOf
  done_perm : (e.done.map Prod.fst).Perm e.dispatched
  attributed : ∀ d ∈ e.done, ∀ r ∈ d.2, r.project = d.1.projectName
  results : s'.allResults = s.allResults ++
    (e.wave.filter fun p => BlockedBy s.failedProjects p).flatMap skippedResults ++
      e.done.flatMap Prod.snd
  failed : ∀ name, name ∈ s'.failedProjects ↔ name ∈ s.failedProjects ∨
    ∃ p ∈ e.wave, p.name = name ∧ (BlockedBy s.failedProjects p ∨ Failed e.done name)

theorem failed_iff {done : List (TaggedFile × List TestResult)}
    (h : ∀ d ∈ done, ∀ r ∈ d.2, r.project = d.1.projectName) {name : String} :
    Failed done name ↔ ∃ r ∈ done.flatMap Prod.snd, r.status = .failed ∧ r.project = some name := by
  constructor
  · rintro ⟨d, hd, hname, r, hr, hstatus⟩
    exact ⟨r, List.mem_flatMap.mpr ⟨d, hd, hr⟩, hstatus, (h d hd r hr).trans hname⟩
  · rintro ⟨r, hmem, hstatus, hproject⟩
    obtain ⟨d, hd, hr⟩ := List.mem_flatMap.mp hmem
    exact ⟨d, hd, (h d hd r hr).symm.trans hproject, r, hr, hstatus⟩

end Plan

/-! ### What belongs to a project -/

def resultsOf (name : String) (results : List TestResult) : List TestResult :=
  results.filter fun r => r.project = some name

def doneOf (name : String) (done : List (TaggedFile × List TestResult)) :
    List (TaggedFile × List TestResult) :=
  done.filter fun d => d.1.projectName = some name

section Own

variable {α : Type} {wave : List ResolvedProject} {p : ResolvedProject} {name : String}

/-- Among what the projects of a list contribute, a name picks what its projects contribute. -/
theorem filter_flatMap_own {own : ResolvedProject → List α} {key : α → Option String}
    (hown : ∀ q, ∀ x ∈ own q, key x = some q.name) :
    (wave.flatMap own).filter (fun x => key x = some name) =
      (wave.filter fun q => q.name = name).flatMap own := by
  induction wave with
  | nil => rfl
  | cons q wave ih =>
    rw [List.flatMap_cons, List.filter_append, ih]
    by_cases hname : q.name = name
    · rw [List.filter_cons_of_pos (by simpa using hname), List.flatMap_cons]
      congr 1
      rw [List.filter_eq_self]
      intro x hx
      simp [hown q x hx, hname]
    · rw [List.filter_cons_of_neg (by simpa using hname)]
      have hnone : (own q).filter (fun x => key x = some name) = [] := by
        rw [List.filter_eq_nil_iff]
        intro x hx
        simp [hown q x hx, hname]
      rw [hnone]
      rfl

theorem filter_name_of_mem (hnodup : (wave.map ResolvedProject.name).Nodup) (hp : p ∈ wave) :
    (wave.filter fun q => q.name = p.name) = [p] := by
  induction wave with
  | nil => exact absurd hp List.not_mem_nil
  | cons q wave ih =>
    obtain ⟨hnot, hnodup⟩ := List.nodup_cons.mp hnodup
    rcases List.mem_cons.mp hp with rfl | hp
    · rw [List.filter_cons_of_pos (by simp)]
      congr 1
      rw [List.filter_eq_nil_iff]
      intro r hr
      have hne : r.name ≠ p.name := by
        intro heq
        exact hnot (heq ▸ List.mem_map_of_mem hr)
      simpa using hne
    · have hne : q.name ≠ p.name := by
        intro heq
        exact hnot (heq ▸ List.mem_map_of_mem hp)
      rw [List.filter_cons_of_neg (by simpa using hne)]
      exact ih hnodup hp

theorem filter_name_of_not_mem (h : name ∉ wave.map ResolvedProject.name) :
    (wave.filter fun q => q.name = name) = [] := by
  rw [List.filter_eq_nil_iff]
  intro q hq
  have hne : q.name ≠ name := by
    rintro rfl
    exact h (List.mem_map_of_mem hq)
  simpa using hne

/-- What a project of a wave contributes to a part of the wave. -/
theorem own_of_mem {own : ResolvedProject → List α} {key : α → Option String}
    (hown : ∀ q, ∀ x ∈ own q, key x = some q.name) (hnodup : (wave.map ResolvedProject.name).Nodup)
    (hp : p ∈ wave) (part : ResolvedProject → Bool) :
    ((wave.filter part).flatMap own).filter (fun x => key x = some p.name) =
      if part p then own p else [] := by
  rw [filter_flatMap_own hown, List.filter_filter]
  have hcomm : (wave.filter fun q => decide (q.name = p.name) && part q) =
      (wave.filter fun q => q.name = p.name).filter part := by
    rw [List.filter_filter]
    apply List.filter_congr
    intro q _
    exact Bool.and_comm _ _
  rw [hcomm, filter_name_of_mem hnodup hp]
  cases hpart : part p with
  | true => simp [hpart]
  | false => simp [hpart]

theorem own_of_not_mem {own : ResolvedProject → List α} {key : α → Option String}
    (hown : ∀ q, ∀ x ∈ own q, key x = some q.name) (h : name ∉ wave.map ResolvedProject.name)
    (part : ResolvedProject → Bool) :
    ((wave.filter part).flatMap own).filter (fun x => key x = some name) = [] := by
  rw [filter_flatMap_own hown, filter_name_of_not_mem]
  · rfl
  · intro hmem
    obtain ⟨q, hq, hname⟩ := List.mem_map.mp hmem
    exact h (List.mem_map.mpr ⟨q, List.mem_of_mem_filter hq, hname⟩)

theorem filesOf_own : ∀ q, ∀ f ∈ filesOf q, f.projectName = some q.name := by
  intro q f hf
  obtain ⟨file, -, rfl⟩ := List.mem_map.mp hf
  rfl

theorem skippedResults_own : ∀ q, ∀ r ∈ skippedResults q, r.project = some q.name := by
  intro q r hr
  obtain ⟨file, -, rfl⟩ := List.mem_map.mp hr
  rfl

/-- The results of a project are those of its files. -/
theorem resultsOf_done {done : List (TaggedFile × List TestResult)}
    (h : ∀ d ∈ done, ∀ r ∈ d.2, r.project = d.1.projectName) :
    resultsOf name (done.flatMap Prod.snd) = (doneOf name done).flatMap Prod.snd := by
  induction done with
  | nil => rfl
  | cons d done ih =>
    have hrest := ih fun d' hd' => h d' (List.mem_cons_of_mem d hd')
    have hd := h d List.mem_cons_self
    unfold resultsOf doneOf at hrest ⊢
    rw [List.flatMap_cons, List.filter_append, hrest]
    by_cases hname : d.1.projectName = some name
    · rw [List.filter_cons_of_pos (by simpa using hname), List.flatMap_cons]
      congr 1
      rw [List.filter_eq_self]
      intro r hr
      simp [hd r hr, hname]
    · rw [List.filter_cons_of_neg (by simpa using hname)]
      have hnone : d.2.filter (fun r => r.project = some name) = [] := by
        rw [List.filter_eq_nil_iff]
        intro r hr
        simp [hd r hr, hname]
      rw [hnone]
      rfl

/-- The files of a project that were done are its files. -/
theorem doneOf_perm (name : String) {done : List (TaggedFile × List TestResult)} {files : List TaggedFile}
    (h : (done.map Prod.fst).Perm files) :
    ((doneOf name done).map Prod.fst).Perm (files.filter fun f => f.projectName = some name) := by
  have hfilter := h.filter fun f => decide (f.projectName = some name)
  rw [List.filter_map] at hfilter
  exact hfilter

end Own

/-! ### What has become of the projects -/

/-- The waves of a sort: every project is in one of them, behind its dependencies. -/
def OrderedWaves (projects : List ResolvedProject) (waves : List (List ResolvedProject)) : Prop :=
  (∀ pre wave post, waves = pre ++ wave :: post → (wave.map ResolvedProject.name).Nodup ∧
    ∀ p ∈ wave, p ∈ projects ∧ p.name ∉ pre.flatten.map ResolvedProject.name ∧
      ∀ dep ∈ p.dependencies, dep ∈ pre.flatten.map ResolvedProject.name) ∧
  ∀ p ∈ projects, p ∈ waves.flatten

/-- The projects of the waves so far. -/
def processed (es : List WaveEvent) : List ResolvedProject :=
  (es.map WaveEvent.wave).flatten

/-- The files done so far. -/
def allDone (es : List WaveEvent) : List (TaggedFile × List TestResult) :=
  es.flatMap WaveEvent.done

/-- Some transitive dependency of the project has failed. -/
def Blocked (projects : List ResolvedProject) (es : List WaveEvent) (name : String) : Prop :=
  ∃ d, Relation.TransGen (Needs projects) name d ∧ Failed (allDone es) d

/-- Every file of the project has been run. -/
def FullyRun (es : List WaveEvent) (p : ResolvedProject) : Prop :=
  ((doneOf p.name (allDone es)).map Prod.fst).Perm (filesOf p)

/-- A blocked project is skipped file by file and recorded as failed; any other one is run. -/
structure Outcome (projects : List ResolvedProject) (es : List WaveEvent) (s : Gate)
    (p : ResolvedProject) : Prop where
  skipped : Blocked projects es p.name →
    resultsOf p.name s.allResults = skippedResults p ∧ p.name ∈ s.failedProjects ∧
      ∀ e ∈ es, ∀ f ∈ e.dispatched, f.projectName ≠ some p.name
  run : ¬ Blocked projects es p.name →
    FullyRun es p ∧
      resultsOf p.name s.allResults = (doneOf p.name (allDone es)).flatMap Prod.snd

structure GateInv (projects : List ResolvedProject) (waves : List (List ResolvedProject))
    (es : List WaveEvent) (s : Gate) : Prop where
  waves_eq : waves = es.map WaveEvent.wave ++ s.projectWaves
  dispatched : ∀ e ∈ es, ∀ f ∈ e.dispatched,
    ∃ name ∈ (processed es).map ResolvedProject.name, f.projectName = some name
  done : ∀ d ∈ allDone es,
    ∃ name ∈ (processed es).map ResolvedProject.name, d.1.projectName = some name
  results : ∀ r ∈ s.allResults,
    ∃ name ∈ (processed es).map ResolvedProject.name, r.project = some name
  recorded : ∀ name ∈ s.failedProjects, name ∈ (processed es).map ResolvedProject.name
  failed : ∀ name ∈ (processed es).map ResolvedProject.name,
    (name ∈ s.failedProjects ↔
      ∃ d, Relation.ReflTransGen (Needs projects) name d ∧ Failed (allDone es) d)
  outcome : ∀ p ∈ processed es, Outcome projects es s p

section Gating

variable {projects : List ResolvedProject} {waves : List (List ResolvedProject)}
  {es : List WaveEvent} {s s' : Gate} {e : WaveEvent}

theorem needs_iff (hnodup : (projects.map ResolvedProject.name).Nodup) {p : ResolvedProject}
    (hp : p ∈ projects) {dep : String} : Needs projects p.name dep ↔ dep ∈ p.dependencies := by
  constructor
  · rintro ⟨q, hq, hname, hdep⟩
    rwa [← List.inj_on_of_nodup_map hnodup hq hp hname]
  · exact fun hdep => ⟨p, hp, rfl, hdep⟩

theorem processed_snoc : processed (es ++ [e]) = processed es ++ e.wave := by
  simp [processed]

theorem allDone_snoc : allDone (es ++ [e]) = allDone es ++ e.done := by
  simp [allDone]

theorem failed_append {done more : List (TaggedFile × List TestResult)} {name : String} :
    Failed (done ++ more) name ↔ Failed done name ∨ Failed more name := by
  unfold Failed
  simp only [List.mem_append, or_and_right, exists_or]

/-- What the projects so far depend on is among them. -/
theorem GateInv.closed (h : GateInv projects waves es s)
    (hnodup : (projects.map ResolvedProject.name).Nodup) (hordered : OrderedWaves projects waves)
    {a b : String} (ha : a ∈ (processed es).map ResolvedProject.name)
    (hneeds : Relation.ReflTransGen (Needs projects) a b) :
    b ∈ (processed es).map ResolvedProject.name := by
  induction hneeds with
  | refl => exact ha
  | tail _ hstep ih =>
    obtain ⟨p, hp, hname⟩ := List.mem_map.mp ih
    obtain ⟨wave, hwave, hpw⟩ := List.mem_flatten.mp hp
    obtain ⟨pre, post, hsplit⟩ := List.append_of_mem hwave
    have hwaves : waves = pre ++ wave :: (post ++ s.projectWaves) := by
      rw [h.waves_eq, hsplit, List.append_assoc]
      rfl
    obtain ⟨hin, -, hdeps⟩ := (hordered.1 pre wave _ hwaves).2 p hpw
    rw [← hname, needs_iff hnodup hin] at hstep
    have hdep := hdeps _ hstep
    rw [processed, hsplit, List.flatten_append, List.map_append]
    exact List.mem_append_left _ hdep

/-- The next wave: its projects are new, and they depend on the projects so far. -/
theorem GateInv.fresh (h : GateInv projects waves es s) (hordered : OrderedWaves projects waves)
    {rest : List (List ResolvedProject)} (hwaves : s.projectWaves = e.wave :: rest) :
    (e.wave.map ResolvedProject.name).Nodup ∧ ∀ p ∈ e.wave, p ∈ projects ∧
      p.name ∉ (processed es).map ResolvedProject.name ∧
      ∀ dep ∈ p.dependencies, dep ∈ (processed es).map ResolvedProject.name := by
  apply hordered.1 (es.map WaveEvent.wave) e.wave rest
  rw [h.waves_eq, hwaves]

/-- How the next wave lies to the projects so far: it is new, none of them fails in it, and its
    projects are blocked by a direct dependency just if they are by a transitive one. -/
structure NextWave (projects : List ResolvedProject) (es : List WaveEvent) (s : Gate)
    (e : WaveEvent) : Prop where
  nodup : (e.wave.map ResolvedProject.name).Nodup
  mem : ∀ p ∈ e.wave, p ∈ projects
  new : ∀ p ∈ e.wave, p.name ∉ (processed es).map ResolvedProject.name
  old : ∀ name ∈ (processed es).map ResolvedProject.name, name ∉ e.wave.map ResolvedProject.name
  dispatched : ∀ f ∈ e.dispatched,
    ∃ name ∈ e.wave.map ResolvedProject.name, f.projectName = some name
  done : ∀ d ∈ e.done, ∃ name ∈ e.wave.map ResolvedProject.name, d.1.projectName = some name
  failed_new : ∀ p ∈ e.wave, (Failed (allDone (es ++ [e])) p.name ↔ Failed e.done p.name)
  tainted_old : ∀ name ∈ (processed es).map ResolvedProject.name,
    ((∃ d, Relation.ReflTransGen (Needs projects) name d ∧ Failed (allDone (es ++ [e])) d) ↔
      ∃ d, Relation.ReflTransGen (Needs projects) name d ∧ Failed (allDone es) d)
  blocked_old : ∀ name ∈ (processed es).map ResolvedProject.name,
    (Blocked projects (es ++ [e]) name ↔ Blocked projects es name)
  blocked_new : ∀ p ∈ e.wave,
    (BlockedBy s.failedProjects p ↔ Blocked projects (es ++ [e]) p.name)

theorem GateInv.nextWave (h : GateInv projects waves es s)
    (hnodup : (projects.map ResolvedProject.name).Nodup) (hordered : OrderedWaves projects waves)
    (hspec : s.StepSpec e s') : NextWave projects es s e := by
  obtain ⟨hwave, hnew⟩ := h.fresh hordered hspec.waves
  have hdispatched : ∀ f ∈ e.dispatched,
      ∃ name ∈ e.wave.map ResolvedProject.name, f.projectName = some name := by
    intro f hf
    rw [hspec.dispatched] at hf
    obtain ⟨p, hp, hmem⟩ := List.mem_flatMap.mp hf
    exact ⟨p.name, List.mem_map_of_mem (List.mem_of_mem_filter hp), filesOf_own p f hmem⟩
  have hdone : ∀ d ∈ e.done, ∃ name ∈ e.wave.map ResolvedProject.name,
      d.1.projectName = some name :=
    fun d hd => hdispatched d.1 (hspec.done_perm.mem_iff.mp (List.mem_map_of_mem hd))
  have hold : ∀ name ∈ (processed es).map ResolvedProject.name,
      name ∉ e.wave.map ResolvedProject.name := by
    intro name hname hmem
    obtain ⟨p, hp, rfl⟩ := List.mem_map.mp hmem
    exact (hnew p hp).2.1 hname
  have hfailed_old : ∀ name ∈ (processed es).map ResolvedProject.name, ¬ Failed e.done name := by
    rintro name hname ⟨d, hd, hproject, -⟩
    obtain ⟨name', hname', hproject'⟩ := hdone d hd
    rw [hproject] at hproject'
    exact hold name hname (Option.some.inj hproject' ▸ hname')
  have hclosed : ∀ name ∈ (processed es).map ResolvedProject.name, ∀ d,
      Relation.ReflTransGen (Needs projects) name d →
        (Failed (allDone (es ++ [e])) d ↔ Failed (allDone es) d) := by
    intro name hname d hneeds
    rw [allDone_snoc, failed_append]
    have hd := h.closed hnodup hordered hname hneeds
    exact ⟨fun hf => hf.resolve_right (hfailed_old d hd), .inl⟩
  refine ⟨hwave, fun p hp => (hnew p hp).1, fun p hp => (hnew p hp).2.1, hold, hdispatched, hdone,
    ?_, ?_, ?_, ?_⟩
  · intro p hp
    rw [allDone_snoc, failed_append]
    refine ⟨fun hf => hf.resolve_left ?_, .inr⟩
    rintro ⟨d, hd, hproject, -⟩
    obtain ⟨name, hname, hproject'⟩ := h.done d hd
    rw [hproject] at hproject'
    exact (hnew p hp).2.1 (Option.some.inj hproject' ▸ hname)
  · intro name hname
    exact exists_congr fun d => and_congr_right fun hneeds => hclosed name hname d hneeds
  · intro name hname
    exact exists_congr fun d => and_congr_right fun hneeds =>
      hclosed name hname d hneeds.to_reflTransGen
  · intro p hp
    obtain ⟨hin, -, hdeps⟩ := hnew p hp
    constructor
    · rintro ⟨dep, hdep, hrecorded⟩
      obtain ⟨d, hneeds, hfail⟩ := (h.failed dep (hdeps dep hdep)).mp hrecorded
      refine ⟨d, Relation.TransGen.head' ((needs_iff hnodup hin).mpr hdep) hneeds, ?_⟩
      exact (hclosed dep (hdeps dep hdep) d hneeds).mpr hfail
    · rintro ⟨d, hneeds, hfail⟩
      obtain ⟨dep, hfirst, hrest⟩ := Relation.TransGen.head'_iff.mp hneeds
      have hdep := (needs_iff hnodup hin).mp hfirst
      refine ⟨dep, hdep, (h.failed dep (hdeps dep hdep)).mpr ⟨d, hrest, ?_⟩⟩
      exact (hclosed dep (hdeps dep hdep) d hrest).mp hfail

/-- Who is recorded as failed after one more wave. -/
theorem GateInv.step_failed (h : GateInv projects waves es s) (hnext : NextWave projects es s e)
    (hspec : s.StepSpec e s') {name : String}
    (hname : name ∈ (processed (es ++ [e])).map ResolvedProject.name) :
    name ∈ s'.failedProjects ↔
      ∃ d, Relation.ReflTransGen (Needs projects) name d ∧ Failed (allDone (es ++ [e])) d := by
  rw [hspec.failed name]
  rw [processed_snoc, List.map_append] at hname
  rcases List.mem_append.mp hname with hname | hname
  · rw [hnext.tainted_old name hname, ← h.failed name hname]
    refine ⟨fun hor => hor.resolve_right ?_, .inl⟩
    rintro ⟨p, hp, rfl, -⟩
    exact hnext.new p hp hname
  · obtain ⟨p, hp, rfl⟩ := List.mem_map.mp hname
    constructor
    · rintro (hrecorded | ⟨q, hq, hqname, hblocked | hfail⟩)
      · exact absurd (h.recorded _ hrecorded) (hnext.new p hp)
      · obtain ⟨d, hneeds, hfail⟩ := (hnext.blocked_new q hq).mp hblocked
        rw [hqname] at hneeds
        exact ⟨d, hneeds.to_reflTransGen, hfail⟩
      · exact ⟨p.name, .refl, (hnext.failed_new p hp).mpr hfail⟩
    · rintro ⟨d, hneeds, hfail⟩
      refine .inr ⟨p, hp, rfl, ?_⟩
      rcases Relation.reflTransGen_iff_eq_or_transGen.mp hneeds with rfl | htrans
      · exact .inr ((hnext.failed_new p hp).mp hfail)
      · exact .inl ((hnext.blocked_new p hp).mpr ⟨d, htrans, hfail⟩)

/-- The next wave adds nothing to what the projects so far have. -/
theorem Outcome.next {p : ResolvedProject} (h : Outcome projects es s p)
    (hnext : NextWave projects es s e) (hspec : s.StepSpec e s')
    (hp : p.name ∈ (processed es).map ResolvedProject.name) :
    Outcome projects (es ++ [e]) s' p := by
  have hnot := hnext.old p.name hp
  have hdone : doneOf p.name e.done = [] := by
    unfold doneOf
    rw [List.filter_eq_nil_iff]
    intro d hd
    obtain ⟨name, hname, hproject⟩ := hnext.done d hd
    have hne : name ≠ p.name := by
      rintro rfl
      exact hnot hname
    simp [hproject, hne]
  have hskipped : resultsOf p.name ((e.wave.filter fun q =>
      BlockedBy s.failedProjects q).flatMap skippedResults) = [] :=
    own_of_not_mem skippedResults_own hnot _
  have hresults : resultsOf p.name s'.allResults = resultsOf p.name s.allResults := by
    have hparts : resultsOf p.name s'.allResults = resultsOf p.name s.allResults ++
        resultsOf p.name ((e.wave.filter fun q =>
          BlockedBy s.failedProjects q).flatMap skippedResults) ++
        resultsOf p.name (e.done.flatMap Prod.snd) := by
      rw [hspec.results]
      unfold resultsOf
      rw [List.filter_append, List.filter_append]
    rw [hparts, hskipped, resultsOf_done hspec.attributed, hdone]
    simp
  have hall : doneOf p.name (allDone (es ++ [e])) = doneOf p.name (allDone es) := by
    have hparts : doneOf p.name (allDone (es ++ [e])) =
        doneOf p.name (allDone es) ++ doneOf p.name e.done := by
      rw [allDone_snoc]
      exact List.filter_append _ _
    rw [hparts, hdone, List.append_nil]
  constructor
  · intro hblocked
    obtain ⟨hskip, hrecorded, hundispatched⟩ := h.skipped ((hnext.blocked_old _ hp).mp hblocked)
    refine ⟨hresults.trans hskip, (hspec.failed _).mpr (.inl hrecorded), ?_⟩
    intro e' he' f hf
    rcases List.mem_append.mp he' with he' | he'
    · exact hundispatched e' he' f hf
    · rw [List.mem_singleton.mp he'] at hf
      obtain ⟨name, hname, hproject⟩ := hnext.dispatched f hf
      rw [hproject]
      intro heq
      exact hnot (Option.some.inj heq ▸ hname)
  · intro hclear
    obtain ⟨hrun, hhas⟩ := h.run (mt (hnext.blocked_old _ hp).mpr hclear)
    refine ⟨?_, ?_⟩
    · unfold FullyRun
      rw [hall]
      exact hrun
    · rw [hresults, hall]
      exact hhas

/-- A project of the next wave is skipped or run in it. -/
theorem GateInv.settled {p : ResolvedProject} (h : GateInv projects waves es s)
    (hnext : NextWave projects es s e) (hspec : s.StepSpec e s') (hp : p ∈ e.wave) :
    Outcome projects (es ++ [e]) s' p := by
  have hbefore : resultsOf p.name s.allResults = [] := by
    unfold resultsOf
    rw [List.filter_eq_nil_iff]
    intro r hr
    obtain ⟨name, hname, hproject⟩ := h.results r hr
    have hne : name ≠ p.name := by
      rintro rfl
      exact hnext.new p hp hname
    simp [hproject, hne]
  have hdone_before : doneOf p.name (allDone es) = [] := by
    unfold doneOf
    rw [List.filter_eq_nil_iff]
    intro d hd
    obtain ⟨name, hname, hproject⟩ := h.done d hd
    have hne : name ≠ p.name := by
      rintro rfl
      exact hnext.new p hp hname
    simp [hproject, hne]
  have hskipped : resultsOf p.name ((e.wave.filter fun q =>
      BlockedBy s.failedProjects q).flatMap skippedResults) =
        if BlockedBy s.failedProjects p then skippedResults p else [] := by
    have := own_of_mem skippedResults_own hnext.nodup hp fun q => BlockedBy s.failedProjects q
    simpa [resultsOf] using this
  have hfiles : e.dispatched.filter (fun f => f.projectName = some p.name) =
      if BlockedBy s.failedProjects p then [] else filesOf p := by
    have := own_of_mem filesOf_own hnext.nodup hp fun q => ¬ BlockedBy s.failedProjects q
    rw [← hspec.dispatched] at this
    rw [this]
    by_cases hblocked : BlockedBy s.failedProjects p <;> simp [hblocked]
  have hperm := doneOf_perm p.name hspec.done_perm
  rw [hfiles] at hperm
  have hall : doneOf p.name (allDone (es ++ [e])) = doneOf p.name e.done := by
    have hparts : doneOf p.name (allDone (es ++ [e])) =
        doneOf p.name (allDone es) ++ doneOf p.name e.done := by
      rw [allDone_snoc]
      exact List.filter_append _ _
    rw [hparts, hdone_before, List.nil_append]
  have hresults : resultsOf p.name s'.allResults =
      (if BlockedBy s.failedProjects p then skippedResults p else []) ++
        (doneOf p.name e.done).flatMap Prod.snd := by
    have hparts : resultsOf p.name s'.allResults = resultsOf p.name s.allResults ++
        resultsOf p.name ((e.wave.filter fun q =>
          BlockedBy s.failedProjects q).flatMap skippedResults) ++
        resultsOf p.name (e.done.flatMap Prod.snd) := by
      rw [hspec.results]
      unfold resultsOf
      rw [List.filter_append, List.filter_append]
    rw [hparts, hbefore, hskipped, resultsOf_done hspec.attributed, List.nil_append]
  constructor
  · intro hblocked
    have hblocked := (hnext.blocked_new p hp).mpr hblocked
    rw [if_pos hblocked] at hperm hresults hfiles
    have hdone : doneOf p.name e.done = [] := List.map_eq_nil_iff.mp hperm.eq_nil
    refine ⟨?_, (hspec.failed _).mpr (.inr ⟨p, hp, rfl, .inl hblocked⟩), ?_⟩
    · rw [hresults, hdone]
      simp
    · intro e' he' f hf hproject
      rcases List.mem_append.mp he' with he' | he'
      · obtain ⟨name, hname, hproject'⟩ := h.dispatched e' he' f hf
        rw [hproject] at hproject'
        exact hnext.new p hp (Option.some.inj hproject' ▸ hname)
      · rw [List.mem_singleton.mp he'] at hf
        rw [List.filter_eq_nil_iff] at hfiles
        exact hfiles f hf (decide_eq_true hproject)
  · intro hclear
    have hclear := mt (hnext.blocked_new p hp).mp hclear
    rw [if_neg hclear] at hperm hresults
    refine ⟨?_, ?_⟩
    · unfold FullyRun
      rw [hall]
      exact hperm
    · rw [hresults, hall, List.nil_append]

/-- **One iteration** settles the projects of its wave and leaves the others as they are. -/
theorem GateInv.step (h : GateInv projects waves es s)
    (hnodup : (projects.map ResolvedProject.name).Nodup) (hordered : OrderedWaves projects waves)
    (hspec : s.StepSpec e s') : GateInv projects waves (es ++ [e]) s' := by
  have hnext := h.nextWave hnodup hordered hspec
  have hnames : (processed (es ++ [e])).map ResolvedProject.name =
      (processed es).map ResolvedProject.name ++ e.wave.map ResolvedProject.name := by
    rw [processed_snoc, List.map_append]
  refine ⟨?_, ?_, ?_, ?_, ?_, fun name hname => h.step_failed hnext hspec hname, ?_⟩
  · rw [List.map_append, List.append_assoc, h.waves_eq, hspec.waves]
    rfl
  · intro e' he' f hf
    rw [hnames]
    rcases List.mem_append.mp he' with he' | he'
    · obtain ⟨name, hname, hproject⟩ := h.dispatched e' he' f hf
      exact ⟨name, List.mem_append_left _ hname, hproject⟩
    · rw [List.mem_singleton.mp he'] at hf
      obtain ⟨name, hname, hproject⟩ := hnext.dispatched f hf
      exact ⟨name, List.mem_append_right _ hname, hproject⟩
  · intro d hd
    rw [hnames]
    rw [allDone_snoc] at hd
    rcases List.mem_append.mp hd with hd | hd
    · obtain ⟨name, hname, hproject⟩ := h.done d hd
      exact ⟨name, List.mem_append_left _ hname, hproject⟩
    · obtain ⟨name, hname, hproject⟩ := hnext.done d hd
      exact ⟨name, List.mem_append_right _ hname, hproject⟩
  · intro r hr
    rw [hnames]
    rw [hspec.results, List.append_assoc] at hr
    rcases List.mem_append.mp hr with hr | hr
    · obtain ⟨name, hname, hproject⟩ := h.results r hr
      exact ⟨name, List.mem_append_left _ hname, hproject⟩
    · rcases List.mem_append.mp hr with hr | hr
      · obtain ⟨p, hp, hmem⟩ := List.mem_flatMap.mp hr
        refine ⟨p.name, List.mem_append_right _ ?_, skippedResults_own p r hmem⟩
        exact List.mem_map_of_mem (List.mem_of_mem_filter hp)
      · obtain ⟨d, hd, hmem⟩ := List.mem_flatMap.mp hr
        obtain ⟨name, hname, hproject⟩ := hnext.done d hd
        exact ⟨name, List.mem_append_right _ hname, (hspec.attributed d hd r hmem).trans hproject⟩
  · intro name hname
    rw [hnames]
    rcases (hspec.failed name).mp hname with hname | ⟨p, hp, rfl, -⟩
    · exact List.mem_append_left _ (h.recorded name hname)
    · exact List.mem_append_right _ (List.mem_map_of_mem hp)
  · intro p hp
    rw [processed_snoc] at hp
    rcases List.mem_append.mp hp with hp | hp
    · exact (h.outcome p hp).next hnext hspec (List.mem_map_of_mem hp)
    · exact h.settled hnext hspec hp

end Gating

/-! ### A whole run -/

section Runs

variable {projects : List ResolvedProject} {waves : List (List ResolvedProject)}
  {es : List WaveEvent} {s : Gate}

end Runs

end Tapsmith.Dispatch
