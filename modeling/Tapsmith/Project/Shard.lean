import Tapsmith.Lib.CodeUnits
import Tapsmith.Lib.Pointwise
import Tapsmith.Project.Sort

namespace Tapsmith.Project

open Lib.Graph Lib.OrderedSet Lib.CodeUnits Lib.Pointwise

/-!
# Projects — sharding

`shardProjects` gives every machine its part of the files of the projects that no other project
depends on, and then empties the projects that others depend on, one by one, until each of them
has a direct dependent with files.

* `prunePass`, `pruneLoop` — the emptying, in place;
* `Supported` — a chain of projects with files leads up to one that nobody depends on;
* `pruneLoop_spec` — the projects that are emptied are those without such a chain;
* `mem_splitFiles`, `splitFiles_ne_nil` — which files a machine keeps of a project that is split;
* `shardsCover_iff` — the shards lose nothing if and only if no chain runs through a project
  without files that another chain does not bypass.
-/

/-! ### The code -/

/-- The names that occur in some dependency list. -/
def dependedOn (projects : List ResolvedProject) : List String :=
  addAll [] (projects.flatMap ResolvedProject.dependencies)

/-- `files.filter((f) => mine.delete(f))`: the first occurrence of each file in `mine`. -/
def takeOnce : List String → List String → List String
  | [], _ => []
  | f :: files, mine => if f ∈ mine then f :: takeOnce files (mine.erase f) else takeOnce files mine

/-- The files of one machine, split by sorted position and kept in list order. -/
def splitFiles (current total : ℕ) (files : List String) : List String :=
  takeOnce files
    (((sortDistinct files).zipIdx.filter fun e => e.2 % total + 1 = current).map Prod.fst)

/-- The projects that nobody depends on are split. -/
def splitProjects (projects : List ResolvedProject) (current total : ℕ) : List ResolvedProject :=
  projects.map fun p =>
    if p.name ∈ dependedOn projects then p
    else { p with testFiles := splitFiles current total p.testFiles }

def hasDependentTests (projects : List ResolvedProject) (name : String) : Bool :=
  projects.any fun p => name ∈ p.dependencies ∧ p.testFiles ≠ []

/-- One pass over the projects.  `done` are the ones it is past, as they are now; the flag tells
    whether one was emptied. -/
def prunePass (setups : List String) (done : List ResolvedProject) :
    List ResolvedProject → List ResolvedProject × Bool
  | [] => (done, false)
  | p :: rest =>
    if p.name ∉ setups ∨ p.testFiles = [] ∨ hasDependentTests (done ++ p :: rest) p.name then
      prunePass setups (done ++ [p]) rest
    else ((prunePass setups (done ++ [{ p with testFiles := [] }]) rest).1, true)

/-- The number of projects with files. -/
def withFiles (projects : List ResolvedProject) : ℕ :=
  (projects.filter fun p => p.testFiles ≠ []).length

theorem withFiles_prunePass_le (setups : List String) (done todo : List ResolvedProject) :
    withFiles (prunePass setups done todo).1 ≤ withFiles (done ++ todo) := by
  induction todo generalizing done with
  | nil => simp [prunePass]
  | cons p rest ih =>
    rw [prunePass]
    split
    · simpa using ih (done ++ [p])
    · refine (ih _).trans ?_
      simp only [withFiles, List.filter_append, List.length_append, List.filter_cons]
      split <;> split <;> simp_all

/-- A pass that changes something leaves fewer projects with files. -/
theorem withFiles_prunePass_lt {setups : List String} {done todo : List ResolvedProject}
    (h : (prunePass setups done todo).2 = true) :
    withFiles (prunePass setups done todo).1 < withFiles (done ++ todo) := by
  induction todo generalizing done with
  | nil => cases h
  | cons p rest ih =>
    rw [prunePass] at h ⊢
    split at h
    case isTrue hkeep =>
      rw [if_pos hkeep]
      simpa using ih h
    case isFalse hprune =>
      rw [if_neg hprune]
      have hfiles : p.testFiles ≠ [] := fun hnil => hprune (.inr (.inl hnil))
      refine (withFiles_prunePass_le _ _ _).trans_lt ?_
      simp [withFiles, List.filter_append, hfiles]

/-- Until nothing changes. -/
def pruneLoop (setups : List String) (projects : List ResolvedProject) : List ResolvedProject :=
  if _hchanged : (prunePass setups [] projects).2 = true then
    pruneLoop setups (prunePass setups [] projects).1
  else (prunePass setups [] projects).1
termination_by withFiles projects
decreasing_by exact withFiles_prunePass_lt _hchanged

/-- `shardProjects`: the projects as it leaves them, and the list it returns. -/
def shardProjects (projects : List ResolvedProject) (current total : ℕ) :
    List ResolvedProject × List String :=
  let sharded := pruneLoop (dependedOn projects) (splitProjects projects current total)
  (sharded, sortDistinct (sharded.flatMap ResolvedProject.testFiles))

/-! ### Which projects are emptied -/

section Prune

variable {projects current : List ResolvedProject}

/-- A project with files of the first name depends on the second name. -/
def NeedsWithFiles (projects : List ResolvedProject) (a b : String) : Prop :=
  ∃ q ∈ projects, q.name = a ∧ q.testFiles ≠ [] ∧ b ∈ q.dependencies

/-- A chain of projects with files comes down to the name from a project nobody depends on. -/
def Supported (projects : List ResolvedProject) (name : String) : Prop :=
  ∃ top, top ∉ dependedOn projects ∧ Relation.TransGen (NeedsWithFiles projects) top name

/-- The last link of such a chain. -/
theorem supported_iff {name : String} : Supported projects name ↔
    ∃ q ∈ projects, q.testFiles ≠ [] ∧ name ∈ q.dependencies ∧
      (q.name ∉ dependedOn projects ∨ Supported projects q.name) := by
  constructor
  · rintro ⟨top, htop, hchain⟩
    cases hchain with
    | single hlast =>
      obtain ⟨q, hq, rfl, hfiles, hdep⟩ := hlast
      exact ⟨q, hq, hfiles, hdep, .inl htop⟩
    | tail hchain hlast =>
      obtain ⟨q, hq, rfl, hfiles, hdep⟩ := hlast
      exact ⟨q, hq, hfiles, hdep, .inr ⟨top, htop, hchain⟩⟩
  · rintro ⟨q, hq, hfiles, hdep, htop | ⟨top, htop, hchain⟩⟩
    · exact ⟨q.name, htop, .single ⟨q, hq, rfl, hfiles, hdep⟩⟩
    · exact ⟨top, htop, hchain.tail ⟨q, hq, rfl, hfiles, hdep⟩⟩

/-- A project as the loop may have left it so far: only one without support was emptied. -/
def PrunedTo (projects : List ResolvedProject) (p p' : ResolvedProject) : Prop :=
  p' = p ∨
    p' = { p with testFiles := [] } ∧ p.name ∈ dependedOn projects ∧ ¬ Supported projects p.name

theorem PrunedTo.name_eq {p p' : ResolvedProject} (h : PrunedTo projects p p') :
    p'.name = p.name := by
  rcases h with rfl | ⟨rfl, -⟩ <;> rfl

/-- A supported project has a direct dependent with files as long as no supported one is
    emptied. -/
theorem hasDependentTests_of_supported
    (h : List.Forall₂ (PrunedTo projects) projects current) {name : String}
    (hsupp : Supported projects name) : hasDependentTests current name = true := by
  obtain ⟨q, hq, hfiles, hdep, hup⟩ := supported_iff.mp hsupp
  obtain ⟨q', hq', hto⟩ := exists_of_mem_left h hq
  rw [hasDependentTests, List.any_eq_true]
  rcases hto with rfl | ⟨-, hsetup, hno⟩
  · exact ⟨_, hq', decide_eq_true ⟨hdep, hfiles⟩⟩
  · exact absurd hup (by simp [hsetup, hno])

theorem prunePass_prunedTo {done todo : List ResolvedProject}
    (h : List.Forall₂ (PrunedTo projects) projects (done ++ todo)) :
    List.Forall₂ (PrunedTo projects) projects (prunePass (dependedOn projects) done todo).1 := by
  induction todo generalizing done with
  | nil =>
    rw [List.append_nil] at h
    exact h
  | cons p rest ih =>
    rw [prunePass]
    split
    case isTrue hkeep =>
      apply ih
      rwa [List.append_assoc, List.singleton_append]
    case isFalse hprune =>
      rw [not_or, not_or, not_not] at hprune
      apply ih
      rw [List.append_assoc, List.singleton_append]
      have hfront := List.forall₂_take_append _ _ _ h
      have hback := List.forall₂_drop_append _ _ _ h
      generalize hdrop : projects.drop done.length = tail at hback
      cases hback with
      | @cons p₀ _ tail _ hto htail =>
        have hempty : PrunedTo projects p₀ { p with testFiles := [] } := by
          rcases hto with rfl | ⟨rfl, -⟩
          · refine .inr ⟨rfl, hprune.1, ?_⟩
            intro hsupp
            exact hprune.2.2 (hasDependentTests_of_supported h hsupp)
          · exact absurd rfl hprune.2.1
        have hall := List.rel_append hfront (List.Forall₂.cons hempty htail)
        rw [← hdrop] at hall
        simpa only [List.take_append_drop] using hall

/-- A pass that changes nothing has found every project in order. -/
theorem prunePass_unchanged {setups : List String} {done todo : List ResolvedProject}
    (h : (prunePass setups done todo).2 ≠ true) :
    (prunePass setups done todo).1 = done ++ todo ∧
      ∀ p ∈ todo, p.name ∈ setups → p.testFiles ≠ [] →
        hasDependentTests (done ++ todo) p.name = true := by
  induction todo generalizing done with
  | nil => simp [prunePass]
  | cons p rest ih =>
    rw [prunePass] at h ⊢
    split at h
    case isTrue hkeep =>
      rw [if_pos hkeep]
      obtain ⟨heq, hall⟩ := ih h
      rw [List.append_assoc, List.singleton_append] at heq hall
      refine ⟨heq, ?_⟩
      intro q hq hsetup hfiles
      rcases List.mem_cons.mp hq with rfl | hq
      · rcases hkeep with hnot | hnil | hdep
        · exact absurd hsetup hnot
        · exact absurd hnil hfiles
        · exact hdep
      · exact hall q hq hsetup hfiles
    case isFalse hprune => exact absurd rfl h

/-- Where the loop stops: only unsupported projects were emptied, and every project that others
    depend on and that has files left has a direct dependent with files. -/
theorem pruneLoop_stable (h : List.Forall₂ (PrunedTo projects) projects current) :
    List.Forall₂ (PrunedTo projects) projects (pruneLoop (dependedOn projects) current) ∧
      ∀ p ∈ pruneLoop (dependedOn projects) current, p.name ∈ dependedOn projects →
        p.testFiles ≠ [] →
        hasDependentTests (pruneLoop (dependedOn projects) current) p.name = true := by
  induction current using pruneLoop.induct (dependedOn projects) with
  | case1 current hchanged ih =>
    rw [pruneLoop, dif_pos hchanged]
    exact ih (prunePass_prunedTo h)
  | case2 current hsame =>
    obtain ⟨heq, hall⟩ := prunePass_unchanged hsame
    rw [pruneLoop, dif_neg hsame, heq]
    exact ⟨h, hall⟩

/-- **The emptied projects.**  In an acyclic list the loop empties the projects that others
    depend on and that have no support, and leaves the rest alone. -/
def ShardedTo (projects : List ResolvedProject) (p p' : ResolvedProject) : Prop :=
  (p.name ∉ dependedOn projects ∨ Supported projects p.name → p' = p) ∧
    (p.name ∈ dependedOn projects → ¬ Supported projects p.name → p' = { p with testFiles := [] })

theorem needs_mem {a b : String} (h : Needs projects a b) :
    a ∈ projects.map ResolvedProject.name := by
  obtain ⟨p, hp, rfl, -⟩ := h
  exact List.mem_map_of_mem hp

theorem pruneLoop_spec (hacyclic : Acyclic (Needs projects)) :
    List.Forall₂ (ShardedTo projects) projects (pruneLoop (dependedOn projects) projects) := by
  have hrefl : List.Forall₂ (PrunedTo projects) projects projects :=
    List.forall₂_same.mpr fun p _ => .inl rfl
  obtain ⟨hpruned, hstable⟩ := pruneLoop_stable hrefl
  have hwf : WellFounded (Needs projects) := hacyclic.wellFounded fun a b => needs_mem
  -- up from a project with files to one nobody depends on
  have hsupp : ∀ name, ∀ p ∈ pruneLoop (dependedOn projects) projects, p.name = name →
      p.name ∈ dependedOn projects → p.testFiles ≠ [] → Supported projects name := by
    intro name
    induction name using hwf.induction with
    | _ name ih =>
      rintro p hp rfl hsetup hfiles
      have hdep := hstable p hp hsetup hfiles
      rw [hasDependentTests, List.any_eq_true] at hdep
      obtain ⟨q', hq', hq⟩ := hdep
      obtain ⟨hneeds, hqfiles⟩ := of_decide_eq_true hq
      obtain ⟨q, hqmem, hto⟩ := exists_of_mem_right hpruned hq'
      rcases hto with rfl | ⟨rfl, -⟩
      · rw [supported_iff]
        refine ⟨_, hqmem, hqfiles, hneeds, ?_⟩
        by_cases hup : q'.name ∈ dependedOn projects
        · exact .inr (ih q'.name ⟨_, hqmem, rfl, hneeds⟩ q' hq' rfl hup hqfiles)
        · exact .inl hup
      · exact absurd rfl hqfiles
  apply imp_of_mem hpruned
  rintro p - p' hp' (rfl | ⟨rfl, hsetup, hno⟩)
  · refine ⟨fun _ => rfl, ?_⟩
    intro hsetup hno
    have hnil : p'.testFiles = [] := by
      by_contra hfiles
      exact hno (hsupp p'.name p' hp' rfl hsetup hfiles)
    rw [← hnil]
  · refine ⟨?_, fun _ _ => rfl⟩
    rintro (htop | hsupp)
    · exact absurd hsetup htop
    · exact absurd hsupp hno

end Prune

/-! ### Which files a machine keeps -/

section Split

variable {current total : ℕ} {files files' mine : List String} {f : String}

theorem mem_takeOnce (hmine : mine.Nodup) : f ∈ takeOnce files mine ↔ f ∈ files ∧ f ∈ mine := by
  induction files generalizing mine with
  | nil => simp [takeOnce]
  | cons g files ih =>
    rw [takeOnce, List.mem_cons]
    by_cases hg : g ∈ mine
    · rw [if_pos hg, List.mem_cons, ih (hmine.erase g), hmine.mem_erase_iff]
      by_cases hfg : f = g
      · subst hfg
        simp [hg]
      · simp [hfg]
    · rw [if_neg hg, ih hmine]
      constructor
      · rintro ⟨hfiles, hf⟩
        exact ⟨.inr hfiles, hf⟩
      · rintro ⟨rfl | hfiles, hf⟩
        · exact absurd hf hg
        · exact ⟨hfiles, hf⟩

/-- A machine keeps the files whose position in the sorted list is its own. -/
theorem mem_splitFiles : f ∈ splitFiles current total files ↔
    ∃ i, (sortDistinct files)[i]? = some f ∧ i % total + 1 = current := by
  have hmem : f ∈ ((sortDistinct files).zipIdx.filter
      fun e => e.2 % total + 1 = current).map Prod.fst ↔
        ∃ i, (sortDistinct files)[i]? = some f ∧ i % total + 1 = current := by
    simp only [List.mem_map, List.mem_filter, List.mem_zipIdx_iff_getElem?, decide_eq_true_iff,
      Prod.exists, exists_and_right, exists_eq_right]
  have hnodup : (((sortDistinct files).zipIdx.filter
      fun e => e.2 % total + 1 = current).map Prod.fst).Nodup := by
    have hsub := (List.filter_sublist (l := (sortDistinct files).zipIdx)
      (p := fun e => e.2 % total + 1 = current)).map Prod.fst
    rw [List.zipIdx_map_fst] at hsub
    exact (sortDistinct_nodup files).sublist hsub
  rw [splitFiles, mem_takeOnce hnodup, hmem]
  constructor
  · exact fun h => h.2
  · rintro ⟨i, hi, hpos⟩
    exact ⟨mem_sortDistinct.mp (List.mem_of_getElem? hi), i, hi, hpos⟩

/-- The part of a machine does not depend on the order of the list, nor on repetitions. -/
theorem mem_splitFiles_congr (h : ∀ g, g ∈ files' ↔ g ∈ files) :
    f ∈ splitFiles current total files' ↔ f ∈ splitFiles current total files := by
  rw [mem_splitFiles, mem_splitFiles, sortDistinct_congr h]

/-- Machine `current` gets something as soon as there are `current` different files. -/
theorem splitFiles_ne_nil (hpos : 1 ≤ current) (hle : current ≤ total) :
    splitFiles current total files ≠ [] ↔ current ≤ (addAll [] files).length := by
  rw [← length_sortDistinct]
  constructor
  · intro hne
    obtain ⟨f, hf⟩ := List.exists_mem_of_ne_nil _ hne
    obtain ⟨i, hi, hcur⟩ := mem_splitFiles.mp hf
    obtain ⟨hlt, -⟩ := List.getElem?_eq_some_iff.mp hi
    have := Nat.mod_le i total
    omega
  · intro hlen
    have hlt : current - 1 < (sortDistinct files).length := by omega
    apply List.ne_nil_of_mem
    rw [mem_splitFiles]
    refine ⟨current - 1, List.getElem?_eq_getElem hlt, ?_⟩
    rw [Nat.mod_eq_of_lt (by omega)]
    omega

/-- **The parts are a partition.**  Every file is in the part of exactly one machine. -/
theorem existsUnique_splitFiles (htotal : 1 ≤ total) (hf : f ∈ files) :
    ∃! current, (1 ≤ current ∧ current ≤ total) ∧ f ∈ splitFiles current total files := by
  obtain ⟨i, hi⟩ := List.mem_iff_getElem?.mp (mem_sortDistinct.mpr hf)
  have hmod := Nat.mod_lt i htotal
  refine ⟨i % total + 1, ⟨⟨by omega, by omega⟩, mem_splitFiles.mpr ⟨i, hi, rfl⟩⟩, ?_⟩
  rintro current ⟨-, hcur⟩
  obtain ⟨j, hj, rfl⟩ := mem_splitFiles.mp hcur
  obtain ⟨hlt, heq⟩ := List.getElem?_eq_some_iff.mp hi
  obtain ⟨hlt', heq'⟩ := List.getElem?_eq_some_iff.mp hj
  have hij : i = j := (sortDistinct_nodup files).getElem_inj_iff.mp (heq.trans heq'.symm)
  rw [hij]

end Split

/-! ### What the shards of a run are to cover -/

section Shards

variable {projects : List ResolvedProject} {total : ℕ} {copies : ℕ → List ResolvedProject}

/-- The same project on two machines: the files may come in another order, with repetitions. -/
structure SameProject (p q : ResolvedProject) : Prop where
  name : q.name = p.name
  dependencies : q.dependencies = p.dependencies
  files : ∀ f, f ∈ q.testFiles ↔ f ∈ p.testFiles

/-- Every machine resolves the same projects. -/
def SameEverywhere (projects : List ResolvedProject) (total : ℕ)
    (copies : ℕ → List ResolvedProject) : Prop :=
  ∀ current, 1 ≤ current → current ≤ total →
    List.Forall₂ SameProject projects (copies current)

/-- The projects as one machine leaves them. -/
def shard (copies : ℕ → List ResolvedProject) (total current : ℕ) : List ResolvedProject :=
  (shardProjects (copies current) current total).1

/-- The project depends on the name, directly or through others. -/
def DependsOn (projects : List ResolvedProject) (q : ResolvedProject) (name : String) : Prop :=
  ∃ dep ∈ q.dependencies, Relation.ReflTransGen (Needs projects) dep name

/-- Some project with files left depends on the name. -/
def NeededOn (projects shard : List ResolvedProject) (name : String) : Prop :=
  ∃ q ∈ shard, q.testFiles ≠ [] ∧ DependsOn projects q name

/-- **What the shards are to do.**  The parts of a project that nobody depends on are a partition
    of its files; one that others depend on keeps all its files on a shard where some project
    that depends on it has files, and none on the others. -/
structure ShardsCover (projects : List ResolvedProject) (total : ℕ)
    (copies : ℕ → List ResolvedProject) : Prop where
  split : ∀ (i : ℕ) (p : ResolvedProject), projects[i]? = some p → p.name ∉ dependedOn projects →
    (∀ (current : ℕ) (p' : ResolvedProject), 1 ≤ current → current ≤ total →
      (shard copies total current)[i]? = some p' → ∀ f ∈ p'.testFiles, f ∈ p.testFiles) ∧
    ∀ f ∈ p.testFiles, ∃! current, (1 ≤ current ∧ current ≤ total) ∧
      ∃ p' : ResolvedProject, (shard copies total current)[i]? = some p' ∧ f ∈ p'.testFiles
  setup : ∀ current, 1 ≤ current → current ≤ total → ∀ (i : ℕ) (p : ResolvedProject),
    (copies current)[i]? = some p → p.name ∈ dependedOn projects →
    ∃ p' : ResolvedProject, (shard copies total current)[i]? = some p' ∧
      (NeededOn projects (shard copies total current) p.name → p'.testFiles = p.testFiles) ∧
      (¬ NeededOn projects (shard copies total current) p.name → p'.testFiles = [])

/-- The project has files on a machine before any is emptied. -/
def HasFilesOn (projects : List ResolvedProject) (current : ℕ) (q : ResolvedProject) : Prop :=
  if q.name ∈ dependedOn projects then q.testFiles ≠ []
  else current ≤ (addAll [] q.testFiles).length

/-- A link of a chain of projects that have files on a machine. -/
def RunsOn (projects : List ResolvedProject) (current : ℕ) (a b : String) : Prop :=
  ∃ q ∈ projects, q.name = a ∧ HasFilesOn projects current q ∧ b ∈ q.dependencies

/-- A chain of projects with files on a machine comes down to the name from a project nobody
    depends on. -/
def SupportedOn (projects : List ResolvedProject) (current : ℕ) (name : String) : Prop :=
  ∃ top, top ∉ dependedOn projects ∧ Relation.TransGen (RunsOn projects current) top name

/-- A project that nobody depends on, with a file for the machine, depends on the name. -/
def TopNeeds (projects : List ResolvedProject) (current : ℕ) (name : String) : Prop :=
  ∃ top ∈ projects, top.name ∉ dependedOn projects ∧
    current ≤ (addAll [] top.testFiles).length ∧ DependsOn projects top name

/-- Where a project that nobody depends on has a file for a machine and depends on one with
    files, a chain of projects with files leads down to the latter. -/
def ChainsRun (projects : List ResolvedProject) (total : ℕ) : Prop :=
  ∀ current, 1 ≤ current → current ≤ total → ∀ p ∈ projects, p.name ∈ dependedOn projects →
    p.testFiles ≠ [] → TopNeeds projects current p.name → SupportedOn projects current p.name

/-! ### One shard -/

/-- Two lists with the same names and dependencies, position by position. -/
def SameGraph (p q : ResolvedProject) : Prop :=
  q.name = p.name ∧ q.dependencies = p.dependencies

theorem dependedOn_eq {others : List ResolvedProject}
    (h : List.Forall₂ SameGraph projects others) : dependedOn others = dependedOn projects := by
  have hlists : others.flatMap ResolvedProject.dependencies =
      projects.flatMap ResolvedProject.dependencies := by
    induction h with
    | nil => rfl
    | cons hpq _ ih => rw [List.flatMap_cons, List.flatMap_cons, ih, hpq.2]
  rw [dependedOn, dependedOn, hlists]

theorem needs_eq {others : List ResolvedProject} (h : List.Forall₂ SameGraph projects others) :
    Needs others = Needs projects := by
  ext a b
  constructor
  · rintro ⟨q, hq, rfl, hb⟩
    obtain ⟨p, hp, hname, hdeps⟩ := exists_of_mem_right h hq
    exact ⟨p, hp, hname.symm, hdeps ▸ hb⟩
  · rintro ⟨p, hp, rfl, hb⟩
    obtain ⟨q, hq, hname, hdeps⟩ := exists_of_mem_left h hp
    exact ⟨q, hq, hname, hdeps ▸ hb⟩

/-- A project before and after the split on a machine. -/
structure SplitTo (projects : List ResolvedProject) (current total : ℕ)
    (p q : ResolvedProject) : Prop where
  same : SameGraph p q
  whole : p.name ∈ dependedOn projects → ∀ f, f ∈ q.testFiles ↔ f ∈ p.testFiles
  part : p.name ∉ dependedOn projects →
    ∀ f, f ∈ q.testFiles ↔ f ∈ splitFiles current total p.testFiles

theorem splitProjects_splitTo {others : List ResolvedProject} {current : ℕ}
    (h : List.Forall₂ SameProject projects others) :
    List.Forall₂ (SplitTo projects current total) projects
      (splitProjects others current total) := by
  have hgraph : List.Forall₂ SameGraph projects others :=
    h.imp fun p q hpq => ⟨hpq.name, hpq.dependencies⟩
  rw [splitProjects, List.forall₂_map_right_iff, dependedOn_eq hgraph]
  apply h.imp
  intro p q hpq
  by_cases hsetup : q.name ∈ dependedOn projects
  · rw [if_pos hsetup]
    refine ⟨⟨hpq.name, hpq.dependencies⟩, fun _ => hpq.files, ?_⟩
    intro hnot
    exact absurd (hpq.name ▸ hsetup) hnot
  · rw [if_neg hsetup]
    refine ⟨⟨hpq.name, hpq.dependencies⟩, ?_, fun _ f => mem_splitFiles_congr hpq.files⟩
    intro hin
    exact absurd (hpq.name ▸ hin) hsetup

/-- Whether a project has files after the split can be read off the given list. -/
theorem SplitTo.hasFiles_iff {current : ℕ} {p q : ResolvedProject} (hpos : 1 ≤ current)
    (hle : current ≤ total) (h : SplitTo projects current total p q) :
    q.testFiles ≠ [] ↔ HasFilesOn projects current p := by
  have hne : ∀ {xs ys : List String}, (∀ f, f ∈ xs ↔ f ∈ ys) → (xs ≠ [] ↔ ys ≠ []) := by
    intro xs ys hxy
    rw [Ne, Ne, List.eq_nil_iff_forall_not_mem, List.eq_nil_iff_forall_not_mem]
    exact not_congr (forall_congr' fun f => not_congr (hxy f))
  unfold HasFilesOn
  by_cases hsetup : p.name ∈ dependedOn projects
  · rw [if_pos hsetup, hne (h.whole hsetup)]
  · rw [if_neg hsetup, hne (h.part hsetup), splitFiles_ne_nil hpos hle]

/-- A project and what is left of it on a machine. -/
structure ShardTo (projects : List ResolvedProject) (current total : ℕ)
    (p p' : ResolvedProject) : Prop where
  same : SameGraph p p'
  part : p.name ∉ dependedOn projects →
    ∀ f, f ∈ p'.testFiles ↔ f ∈ splitFiles current total p.testFiles
  emptied : p.name ∈ dependedOn projects → ¬ SupportedOn projects current p.name →
    p'.testFiles = []

section OneShard

variable {current : ℕ}

/-- The split list: its graph, and its chains of projects with files. -/
theorem split_facts (hsame : SameEverywhere projects total copies) (hpos : 1 ≤ current)
    (hle : current ≤ total) :
    let L := splitProjects (copies current) current total
    List.Forall₂ (SplitTo projects current total) projects L ∧
      dependedOn (copies current) = dependedOn projects ∧ dependedOn L = dependedOn projects ∧
      Needs L = Needs projects ∧ ∀ name, Supported L name ↔ SupportedOn projects current name := by
  intro L
  have hcopy := hsame current hpos hle
  have hto : List.Forall₂ (SplitTo projects current total) projects L :=
    splitProjects_splitTo hcopy
  have hgraph : List.Forall₂ SameGraph projects L := hto.imp fun p q hpq => hpq.same
  have hlinks : NeedsWithFiles L = RunsOn projects current := by
    ext a b
    constructor
    · rintro ⟨q, hq, rfl, hfiles, hb⟩
      obtain ⟨p, hp, hpq⟩ := exists_of_mem_right hto hq
      exact ⟨p, hp, hpq.same.1.symm, (hpq.hasFiles_iff hpos hle).mp hfiles, hpq.same.2 ▸ hb⟩
    · rintro ⟨p, hp, rfl, hfiles, hb⟩
      obtain ⟨q, hq, hpq⟩ := exists_of_mem_left hto hp
      exact ⟨q, hq, hpq.same.1, (hpq.hasFiles_iff hpos hle).mpr hfiles, hpq.same.2 ▸ hb⟩
  have hsetups := dependedOn_eq hgraph
  refine ⟨hto, dependedOn_eq (hcopy.imp fun p q hpq => ⟨hpq.name, hpq.dependencies⟩), hsetups,
    needs_eq hgraph, ?_⟩
  intro name
  rw [Supported, SupportedOn, hlinks, hsetups]

/-- What the loop makes of the split list. -/
theorem shard_sharded (hacyclic : Acyclic (Needs projects))
    (hsame : SameEverywhere projects total copies) (hpos : 1 ≤ current) (hle : current ≤ total) :
    List.Forall₂ (ShardedTo (splitProjects (copies current) current total))
      (splitProjects (copies current) current total) (shard copies total current) := by
  obtain ⟨-, hcopy, hsetups, hneeds, -⟩ := split_facts hsame hpos hle
  have hspec : List.Forall₂ (ShardedTo (splitProjects (copies current) current total))
      (splitProjects (copies current) current total)
      (pruneLoop (dependedOn (splitProjects (copies current) current total))
        (splitProjects (copies current) current total)) := by
    apply pruneLoop_spec
    rw [hneeds]
    exact hacyclic
  rwa [hsetups, ← hcopy] at hspec

theorem shard_to (hacyclic : Acyclic (Needs projects))
    (hsame : SameEverywhere projects total copies) (hpos : 1 ≤ current) (hle : current ≤ total) :
    List.Forall₂ (ShardTo projects current total) projects (shard copies total current) := by
  obtain ⟨hto, -, hsetups, -, hsupp⟩ := split_facts hsame hpos hle
  have hsharded := shard_sharded hacyclic hsame hpos hle
  apply (comp hto hsharded).imp
  rintro p p' ⟨q, hpq, hkept, hemptied⟩
  obtain ⟨hname, hdeps⟩ := hpq.same
  have hemptied' : q.name ∈ dependedOn projects → ¬ SupportedOn projects current q.name →
      SameGraph p p' ∧ p'.testFiles = [] := by
    intro hsetup hno
    rw [hemptied (hsetups ▸ hsetup) ((hsupp _).not.mpr hno)]
    exact ⟨⟨hname, hdeps⟩, rfl⟩
  rw [hsetups, hsupp] at hkept
  rw [hname] at hkept hemptied'
  refine ⟨?_, ?_, ?_⟩
  · by_cases hkeep : p.name ∉ dependedOn projects ∨ SupportedOn projects current p.name
    · rw [hkept hkeep]
      exact hpq.same
    · rw [not_or, not_not] at hkeep
      exact (hemptied' hkeep.1 hkeep.2).1
  · intro htop
    rw [hkept (.inl htop)]
    exact hpq.part htop
  · intro hsetup hno
    exact (hemptied' hsetup hno).2

/-- A setup project is on a machine what it was, or empty. -/
theorem setup_kept (hacyclic : Acyclic (Needs projects))
    (hsame : SameEverywhere projects total copies) (hpos : 1 ≤ current) (hle : current ≤ total)
    {i : ℕ} {p : ResolvedProject} (hp : (copies current)[i]? = some p)
    (hsetup : p.name ∈ dependedOn projects) :
    ∃ p' : ResolvedProject, (shard copies total current)[i]? = some p' ∧
      (SupportedOn projects current p.name → p' = p) ∧
      (¬ SupportedOn projects current p.name → p'.testFiles = []) := by
  obtain ⟨-, hcopy, hsetups, -, hsupp⟩ := split_facts hsame hpos hle
  have hsplit : (splitProjects (copies current) current total)[i]? = some p := by
    rw [splitProjects, List.getElem?_map, hp, Option.map_some, hcopy, if_pos hsetup]
  obtain ⟨p', hp', hkept, hemptied⟩ :=
    getElem?_left (shard_sharded hacyclic hsame hpos hle) hsplit
  rw [hsetups, hsupp] at hkept hemptied
  refine ⟨p', hp', fun hsupp => hkept (.inr hsupp), ?_⟩
  intro hno
  rw [hemptied hsetup hno]

/-- The first link of a chain from a project nobody depends on. -/
theorem SupportedOn.topNeeds {name : String} (h : SupportedOn projects current name) :
    TopNeeds projects current name := by
  obtain ⟨top, htop, hchain⟩ := h
  obtain ⟨dep, ⟨q, hq, rfl, hfiles, hdep⟩, hrest⟩ := Relation.TransGen.head'_iff.mp hchain
  rw [HasFilesOn, if_neg htop] at hfiles
  refine ⟨q, hq, htop, hfiles, dep, hdep, Relation.ReflTransGen.mono ?_ _ _ hrest⟩
  rintro a b ⟨p, hp, rfl, -, hb⟩
  exact ⟨p, hp, rfl, hb⟩

/-- **Who needs a setup project.**  Some project with files left depends on it exactly where
    one that nobody depends on does. -/
theorem neededOn_iff (hacyclic : Acyclic (Needs projects))
    (hsame : SameEverywhere projects total copies) (hpos : 1 ≤ current) (hle : current ≤ total)
    {name : String} :
    NeededOn projects (shard copies total current) name ↔ TopNeeds projects current name := by
  have hto := shard_to hacyclic hsame hpos hle
  have hdepends : ∀ {p p' : ResolvedProject}, SameGraph p p' →
      (DependsOn projects p' name ↔ DependsOn projects p name) := by
    intro p p' hpp'
    rw [DependsOn, DependsOn, hpp'.2]
  have hne : ∀ {p p' : ResolvedProject}, ShardTo projects current total p p' →
      p.name ∉ dependedOn projects →
      (p'.testFiles ≠ [] ↔ current ≤ (addAll [] p.testFiles).length) := by
    intro p p' hpp' htop
    rw [← splitFiles_ne_nil hpos hle, Ne, Ne, List.eq_nil_iff_forall_not_mem,
      List.eq_nil_iff_forall_not_mem]
    exact not_congr (forall_congr' fun f => not_congr (hpp'.part htop f))
  constructor
  · rintro ⟨q', hq', hfiles, hdep⟩
    obtain ⟨q, hq, hqq'⟩ := exists_of_mem_right hto hq'
    have hqdep := (hdepends hqq'.same).mp hdep
    by_cases htop : q.name ∈ dependedOn projects
    · -- the chain down to a setup project that runs goes on to what it needs
      have hsupp : SupportedOn projects current q.name := by
        by_contra hno
        exact hfiles (hqq'.emptied htop hno)
      obtain ⟨top, htopmem, hnot, hlen, dep, hdepmem, hreach⟩ := hsupp.topNeeds
      obtain ⟨next, hnext, hdown⟩ := hqdep
      exact ⟨top, htopmem, hnot, hlen, dep, hdepmem,
        (hreach.tail ⟨q, hq, rfl, hnext⟩).trans hdown⟩
    · exact ⟨q, hq, htop, (hne hqq' htop).mp hfiles, hqdep⟩
  · rintro ⟨top, htop, hnot, hlen, hdep⟩
    obtain ⟨q', hq', hqq'⟩ := exists_of_mem_left hto htop
    exact ⟨q', hq', (hne hqq' hnot).mpr hlen, (hdepends hqq'.same).mpr hdep⟩

end OneShard

/-- **Sharding.**  Given the same acyclic projects on every machine, the shards do what they are
    to do if and only if no setup project with files is cut off from all its dependents with
    files by projects without any. -/
theorem shardsCover_iff (hacyclic : Acyclic (Needs projects)) (htotal : 1 ≤ total)
    (hsame : SameEverywhere projects total copies) :
    ShardsCover projects total copies ↔ ChainsRun projects total := by
  constructor
  · rintro ⟨-, hsetup⟩ current hpos hle p hp hdep hfiles htop
    obtain ⟨i, hi⟩ := List.mem_iff_getElem?.mp hp
    obtain ⟨q, hq, hpq⟩ := getElem?_left (hsame current hpos hle) hi
    obtain ⟨f, hf⟩ := List.exists_mem_of_ne_nil _ hfiles
    rw [← hpq.name] at hdep htop ⊢
    by_contra hno
    obtain ⟨p', hp', hkept, -⟩ := hsetup current hpos hle i q hq hdep
    obtain ⟨p'', hp'', -, hemptied⟩ := setup_kept hacyclic hsame hpos hle hq hdep
    obtain rfl := Option.some.inj (hp'.symm.trans hp'')
    have hnil := hkept ((neededOn_iff hacyclic hsame hpos hle).mpr htop)
    rw [hemptied hno] at hnil
    have hqf := (hpq.files f).mpr hf
    rw [← hnil] at hqf
    exact absurd hqf List.not_mem_nil
  · intro hchains
    refine ⟨?_, ?_⟩
    · intro i p hi htop
      have hshard : ∀ current, 1 ≤ current → current ≤ total →
          ∃ p' : ResolvedProject, (shard copies total current)[i]? = some p' ∧
            ∀ f, f ∈ p'.testFiles ↔ f ∈ splitFiles current total p.testFiles := by
        intro current hpos hle
        obtain ⟨p', hp', hpp'⟩ := getElem?_left (shard_to hacyclic hsame hpos hle) hi
        exact ⟨p', hp', hpp'.part htop⟩
      constructor
      · intro current p' hpos hle hp' f hf
        obtain ⟨p'', hp'', hpart⟩ := hshard current hpos hle
        obtain rfl := Option.some.inj (hp'.symm.trans hp'')
        obtain ⟨j, hj, -⟩ := mem_splitFiles.mp ((hpart f).mp hf)
        exact mem_sortDistinct.mp (List.mem_of_getElem? hj)
      · intro f hf
        obtain ⟨current, ⟨hrange, hmem⟩, honly⟩ := existsUnique_splitFiles htotal hf
        obtain ⟨p', hp', hpart⟩ := hshard current hrange.1 hrange.2
        refine ⟨current, ⟨hrange, p', hp', (hpart f).mpr hmem⟩, ?_⟩
        rintro other ⟨hother, q', hq', hfq⟩
        obtain ⟨q'', hq'', hpart'⟩ := hshard other hother.1 hother.2
        obtain rfl := Option.some.inj (hq'.symm.trans hq'')
        exact honly other ⟨hother, (hpart' f).mp hfq⟩
    · intro current hpos hle i q hq hdep
      obtain ⟨q', hq', hkept, hemptied⟩ := setup_kept hacyclic hsame hpos hle hq hdep
      obtain ⟨p, hp, hpq⟩ := getElem?_right (hsame current hpos hle) hq
      rw [neededOn_iff hacyclic hsame hpos hle]
      refine ⟨q', hq', ?_, ?_⟩
      · intro htop
        by_cases hsupp : SupportedOn projects current q.name
        · rw [hkept hsupp]
        · -- without a chain there are no files to lose
          have hnone : p.testFiles = [] := by
            by_contra hfiles
            rw [hpq.name] at hdep htop hsupp
            exact hsupp (hchains current hpos hle p (List.mem_of_getElem? hp) hdep hfiles htop)
          rw [hemptied hsupp, eq_comm, List.eq_nil_iff_forall_not_mem]
          intro f hf
          have := (hpq.files f).mp hf
          rw [hnone] at this
          exact absurd this List.not_mem_nil
      · intro hno
        exact hemptied fun hsupp => hno hsupp.topNeeds

end Shards

/-! ### A setup project and its dependents -/

/-- A setup project, a project without files that needs it, and one with files on top. -/
def chainOf (apiFiles e2eFiles : List String) : List ResolvedProject :=
  [{ name := "setup", testFiles := ["setup.test.ts"] },
    { name := "api", dependencies := ["setup"], testFiles := apiFiles },
    { name := "e2e", dependencies := ["api"], testFiles := e2eFiles }]

theorem chainOf_acyclic (apiFiles e2eFiles : List String) :
    Acyclic (Needs (chainOf apiFiles e2eFiles)) := by
  apply acyclic_of_rank fun name => if name = "e2e" then 2 else if name = "api" then 1 else 0
  rintro a b ⟨p, hp, rfl, hb⟩
  simp only [chainOf, List.mem_cons, List.not_mem_nil, or_false] at hp
  rcases hp with rfl | rfl | rfl
  · exact absurd hb List.not_mem_nil
  · rw [List.mem_singleton.mp hb]
    exact Nat.zero_lt_one
  · rw [List.mem_singleton.mp hb]
    exact Nat.one_lt_two

/-- Two machines that list the files in different orders. -/
theorem shardsCover_iff_chain :
    ShardsCover (chainOf ["api.test.ts"] ["a.test.ts", "b.test.ts"]) 2 fun current =>
      if current = 1 then chainOf ["api.test.ts"] ["a.test.ts", "b.test.ts"]
      else chainOf ["api.test.ts"] ["b.test.ts", "a.test.ts", "b.test.ts"] := by
  apply (shardsCover_iff (chainOf_acyclic _ _) (by decide) ?_).mpr
  · intro current hpos hle p hp hsetup hfiles _
    have hone : RunsOn (chainOf ["api.test.ts"] ["a.test.ts", "b.test.ts"]) current "e2e" "api" :=
      ⟨{ name := "e2e", dependencies := ["api"], testFiles := ["a.test.ts", "b.test.ts"] },
        by decide, rfl, hle, by decide⟩
    have htwo : RunsOn (chainOf ["api.test.ts"] ["a.test.ts", "b.test.ts"]) current "api" "setup" :=
      ⟨{ name := "api", dependencies := ["setup"], testFiles := ["api.test.ts"] },
        by decide, rfl, (by decide : ["api.test.ts"] ≠ []), by decide⟩
    refine ⟨"e2e", by decide, ?_⟩
    simp only [chainOf, List.mem_cons, List.not_mem_nil, or_false] at hp
    rcases hp with rfl | rfl | rfl
    · exact .tail (.single hone) htwo
    · exact .single hone
    · exact absurd hsetup (by decide)
  · intro current hpos hle
    have hsame : ∀ p : ResolvedProject, SameProject p p := fun p => ⟨rfl, rfl, fun _ => Iff.rfl⟩
    beta_reduce
    by_cases hone : current = 1
    · rw [if_pos hone]
      exact List.forall₂_same.mpr fun p _ => hsame p
    · rw [if_neg hone]
      refine .cons (hsame _) (.cons (hsame _) (.cons ⟨rfl, rfl, ?_⟩ .nil))
      intro f
      simp only [List.mem_cons, List.not_mem_nil, or_false]
      tauto

/-- A setup project above a project without files is emptied, on the only shard of a run that
    has files which need it. -/
theorem fileless_link_drops_setup :
    Acyclic (Needs (chainOf [] ["e2e.test.ts"])) ∧
    SameEverywhere (chainOf [] ["e2e.test.ts"]) 1 (fun _ => chainOf [] ["e2e.test.ts"]) ∧
    ¬ ShardsCover (chainOf [] ["e2e.test.ts"]) 1 fun _ => chainOf [] ["e2e.test.ts"] := by
  refine ⟨chainOf_acyclic _ _, ?_, ?_⟩
  · intro current hpos hle
    exact List.forall₂_same.mpr fun p _ => ⟨rfl, rfl, fun _ => Iff.rfl⟩
  · intro hcover
    have hshard : shard (fun _ => chainOf [] ["e2e.test.ts"]) 1 1 =
        [{ name := "setup" }, { name := "api", dependencies := ["setup"] },
          { name := "e2e", dependencies := ["api"], testFiles := ["e2e.test.ts"] }] := by
      decide +kernel
    obtain ⟨p', hp', hkept, -⟩ := hcover.setup 1 (by decide) (by decide) 0 _ rfl (by decide)
    rw [hshard] at hp' hkept
    cases hp'
    have hneeded : NeededOn (chainOf [] ["e2e.test.ts"])
        [{ name := "setup" }, { name := "api", dependencies := ["setup"] },
          { name := "e2e", dependencies := ["api"], testFiles := ["e2e.test.ts"] }] "setup" := by
      refine ⟨{ name := "e2e", dependencies := ["api"], testFiles := ["e2e.test.ts"] }, by decide,
        by decide, "api", by decide, .single ?_⟩
      exact ⟨{ name := "api", dependencies := ["setup"] }, by decide, rfl, by decide⟩
    exact absurd (hkept hneeded) (by decide)

end Tapsmith.Project
