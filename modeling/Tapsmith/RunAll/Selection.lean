import Tapsmith.Lib.Json
import Tapsmith.Lib.OrderedSet
import Tapsmith.Project.Transitive

namespace Tapsmith.RunAll

open Lib Lib.Entries Lib.OrderedSet
open Project (ResolvedProject UseOptions)

/-!
# The tests of a filtered tree

What a filtered tree sends with "Run all", and what the server makes of it, as `run-selection.ts`
has them.

* `visibleRunSelection` — the tests of a tree, by project and file;
* `resolveRunSelection` — the selection that the server runs, whatever it was sent;
* `Asks` — what an entry asks for, if it is a valid one;
* `mem_resolve` — the server selects what the valid entries ask for.
-/

/-! ### The tree -/

inductive NodeType
  | project
  | file
  | suite
  | test
deriving DecidableEq

inductive TestTreeNode
  | mk (type : NodeType) (name filePath fullName : String) (children : List TestTreeNode)

/-- One (project, file) of a selection, and its key: `selectionKey` writes the pair as JSON. -/
abbrev SelectionKey : Type := Option String × String

def selectionKey (projectName : Option String) (filePath : String) : SelectionKey :=
  (projectName, filePath)

structure RunSelectionEntry where
  filePath : String
  projectName : Option String := none
  tests : Option (List String) := none
deriving DecidableEq

def RunSelectionEntry.key (entry : RunSelectionEntry) : SelectionKey :=
  selectionKey entry.projectName entry.filePath

/-- A test is added to the entry of its project and file, which is a new one if need be. -/
def addTest (entries : List RunSelectionEntry) (key : SelectionKey) (fullName : String) :
    List RunSelectionEntry :=
  if key ∈ entries.map RunSelectionEntry.key then
    entries.map fun entry =>
      if entry.key = key then { entry with tests := entry.tests.map (· ++ [fullName]) } else entry
  else entries ++ [{ filePath := key.2, projectName := key.1, tests := some [fullName] }]

mutual

def walk (projectName : Option String) (entries : List RunSelectionEntry) :
    TestTreeNode → List RunSelectionEntry
  | .mk type name filePath fullName children =>
    if type = .project then walkAll (some name) entries children
    else if type = .test then addTest entries (selectionKey projectName filePath) fullName
    else walkAll projectName entries children

def walkAll (projectName : Option String) (entries : List RunSelectionEntry) :
    List TestTreeNode → List RunSelectionEntry
  | [] => entries
  | node :: nodes => walkAll projectName (walk projectName entries node) nodes

end

def visibleRunSelection (tree : List TestTreeNode) : List RunSelectionEntry := walkAll none [] tree

mutual

/-- The tests below a node, with the project and the file that they show under. -/
def rows (projectName : Option String) : TestTreeNode → List (SelectionKey × String)
  | .mk type name filePath fullName children =>
    if type = .project then rowsAll (some name) children
    else if type = .test then [(selectionKey projectName filePath, fullName)]
    else rowsAll projectName children

def rowsAll (projectName : Option String) : List TestTreeNode → List (SelectionKey × String)
  | [] => []
  | node :: nodes => rows projectName node ++ rowsAll projectName nodes

end

/-! ### What the tree sends -/

mutual

theorem walk_eq (projectName : Option String) (entries : List RunSelectionEntry) :
    ∀ node, walk projectName entries node =
      (rows projectName node).foldl (fun entries row => addTest entries row.1 row.2) entries
  | .mk type name filePath fullName children => by
    rw [walk, rows]
    split
    · exact walkAll_eq (some name) entries children
    · split
      · rfl
      · exact walkAll_eq projectName entries children

theorem walkAll_eq (projectName : Option String) (entries : List RunSelectionEntry) :
    ∀ nodes, walkAll projectName entries nodes =
      (rowsAll projectName nodes).foldl (fun entries row => addTest entries row.1 row.2) entries
  | [] => rfl
  | node :: nodes => by
    rw [walkAll, rowsAll, List.foldl_append, walk_eq projectName entries node]
    exact walkAll_eq projectName _ nodes

end

/-- An entry that lists a test under its project and file. -/
def Lists (entries : List RunSelectionEntry) (key : SelectionKey) (fullName : String) : Prop :=
  ∃ entry ∈ entries, entry.key = key ∧ ∃ tests, entry.tests = some tests ∧ fullName ∈ tests

/-- Every entry lists tests, and no two have the same key. -/
structure Listing (entries : List RunSelectionEntry) : Prop where
  tests : ∀ entry ∈ entries, ∃ tests, entry.tests = some tests ∧ tests ≠ []
  nodup : (entries.map RunSelectionEntry.key).Nodup

theorem listing_addTest {entries : List RunSelectionEntry} (h : Listing entries)
    (key : SelectionKey) (fullName : String) : Listing (addTest entries key fullName) := by
  unfold addTest
  split
  next hmem =>
    constructor
    · intro entry hentry
      obtain ⟨old, hold, rfl⟩ := List.mem_map.mp hentry
      obtain ⟨tests, htests, hne⟩ := h.tests old hold
      split
      · exact ⟨tests ++ [fullName], by simp [htests], by simp⟩
      · exact ⟨tests, htests, hne⟩
    · have hkeys : (entries.map fun entry =>
          if entry.key = key then { entry with tests := entry.tests.map (· ++ [fullName]) }
          else entry).map RunSelectionEntry.key = entries.map RunSelectionEntry.key := by
        rw [List.map_map]
        refine List.map_congr_left fun entry _ => ?_
        show RunSelectionEntry.key (if _ then _ else _) = _
        split <;> rfl
      rw [hkeys]
      exact h.nodup
  next hmem =>
    constructor
    · intro entry hentry
      rcases List.mem_append.mp hentry with hentry | hentry
      · exact h.tests entry hentry
      · rw [List.mem_singleton.mp hentry]
        exact ⟨[fullName], rfl, by simp⟩
    · rw [List.map_append, List.map_singleton, List.nodup_append]
      refine ⟨h.nodup, List.nodup_singleton _, ?_⟩
      rintro a ha b hb rfl
      have hkey : a = key := List.mem_singleton.mp hb
      exact hmem (hkey ▸ ha)

theorem lists_addTest {entries : List RunSelectionEntry} (h : Listing entries)
    {key key' : SelectionKey} {fullName fullName' : String} :
    Lists (addTest entries key fullName) key' fullName' ↔
      Lists entries key' fullName' ∨ (key' = key ∧ fullName' = fullName) := by
  unfold addTest
  split
  next hmem =>
    constructor
    · rintro ⟨entry, hentry, rfl, tests, htests, hname⟩
      obtain ⟨old, hold, rfl⟩ := List.mem_map.mp hentry
      split at htests
      next hkey =>
        rw [if_pos hkey]
        obtain ⟨oldTests, holdTests, rfl⟩ := Option.map_eq_some_iff.mp htests
        rcases List.mem_append.mp hname with hname | hname
        · exact .inl ⟨old, hold, rfl, oldTests, holdTests, hname⟩
        · exact .inr ⟨hkey, List.mem_singleton.mp hname⟩
      next hkey =>
        rw [if_neg hkey]
        exact .inl ⟨old, hold, rfl, tests, htests, hname⟩
    · rintro (⟨entry, hentry, rfl, tests, htests, hname⟩ | ⟨rfl, rfl⟩)
      · refine ⟨_, List.mem_map_of_mem hentry, ?_, ?_⟩
        · split <;> rfl
        · split
          · exact ⟨tests ++ [fullName], by simp [htests], by simp [hname]⟩
          · exact ⟨tests, htests, hname⟩
      · obtain ⟨entry, hentry, rfl⟩ := List.mem_map.mp hmem
        obtain ⟨tests, htests, -⟩ := h.tests entry hentry
        refine ⟨_, List.mem_map_of_mem hentry, ?_, ?_⟩
        · rw [if_pos rfl]
          rfl
        · rw [if_pos rfl]
          exact ⟨tests ++ [fullName'], by simp [htests], by simp⟩
  next hmem =>
    constructor
    · rintro ⟨entry, hentry, rfl, tests, htests, hname⟩
      rcases List.mem_append.mp hentry with hentry | hentry
      · exact .inl ⟨entry, hentry, rfl, tests, htests, hname⟩
      · obtain rfl := List.mem_singleton.mp hentry
        obtain rfl := Option.some.inj htests
        exact .inr ⟨rfl, List.mem_singleton.mp hname⟩
    · rintro (⟨entry, hentry, hkey, hname⟩ | ⟨rfl, rfl⟩)
      · exact ⟨entry, List.mem_append_left _ hentry, hkey, hname⟩
      · exact ⟨_, List.mem_append_right _ List.mem_cons_self, rfl, _, rfl, List.mem_cons_self⟩

/-- **What a tree sends** is its tests, each under its project and file. -/
theorem lists_visibleRunSelection (tree : List TestTreeNode) :
    Listing (visibleRunSelection tree) ∧ ∀ key fullName,
      Lists (visibleRunSelection tree) key fullName ↔ (key, fullName) ∈ rowsAll none tree := by
  have hfold : ∀ (rows : List (SelectionKey × String)) {entries : List RunSelectionEntry},
      Listing entries →
      Listing (rows.foldl (fun entries row => addTest entries row.1 row.2) entries) ∧
        ∀ key fullName,
          Lists (rows.foldl (fun entries row => addTest entries row.1 row.2) entries) key fullName ↔
            Lists entries key fullName ∨ (key, fullName) ∈ rows := by
    intro rows
    induction rows with
    | nil => exact fun h => ⟨h, fun key fullName => by simp⟩
    | cons row rows ih =>
      intro entries h
      obtain ⟨hlisting, hlists⟩ := ih (listing_addTest h row.1 row.2)
      refine ⟨hlisting, fun key fullName => ?_⟩
      rw [List.foldl_cons, hlists, lists_addTest h, List.mem_cons, or_assoc, ← Prod.mk.injEq]
  have hempty : Listing [] := ⟨by simp, by simp⟩
  obtain ⟨hlisting, hlists⟩ := hfold (rowsAll none tree) hempty
  rw [visibleRunSelection, walkAll_eq]
  refine ⟨hlisting, fun key fullName => (hlists key fullName).trans ?_⟩
  simp [Lists]

/-! ### What the server selects -/

structure SelectionSuite where
  testFiles : List String
  projects : Option (List ResolvedProject) := none
  isWholeFileName : String → String → Bool

/-- The selection: for each key the full names to run, or none for the whole file. -/
abbrev Selection : Type := List (SelectionKey × Option (List String))

/-- The names among the items of an array. -/
def strings (items : List Json) : List String :=
  items.filterMap fun item =>
    match item with
    | .str s => some s
    | _ => none

/-- The project that an entry runs under; nothing if there are projects and it names none that has
    the file. -/
def entryProject (suite : SelectionSuite) (fields : Json.Object) (filePath : String) :
    Option (Option String) :=
  match suite.projects, fields.opt "projectName" with
  | none, _ => some none
  | some projects, some (.str projectName) =>
    if (Project.byName projects projectName).any fun p => filePath ∈ p.testFiles then
      some (some projectName)
    else none
  | some _, _ => none

/-- The selection with an entry of the suite: `none` for the whole file. -/
def select (resolved : Selection) (key : SelectionKey) (names : Option (List String)) : Selection :=
  match names, get key resolved with
  | none, _ => put key none resolved
  | some _, some none => resolved
  | some names, some (some prior) => put key (some (addAll prior names)) resolved
  | some names, none => put key (some (addAll [] names)) resolved

/-- What an entry asks to run in its file: the names of its list, or the whole file; nothing where
    the list has no names. -/
def entryNames (suite : SelectionSuite) (filePath : String) (tests : Option Json) :
    Option (Option (List String)) :=
  match tests with
  | none => some none
  | some (.arr items) =>
    let names := strings items
    if names = [] then none
    else if names.any (suite.isWholeFileName filePath) then some none
    else some (some names)
  | some _ => none

/-- The key and the names of an entry that is valid. -/
def entryOf (suite : SelectionSuite) (raw : Json) : Option (SelectionKey × Option (List String)) :=
  match raw with
  | .obj fields =>
    match Json.Object.opt fields "filePath" with
    | some (.str filePath) =>
      if filePath ∈ suite.testFiles then
        (entryProject suite fields filePath).bind fun project =>
          (entryNames suite filePath (Json.Object.opt fields "tests")).map fun names =>
            (selectionKey project filePath, names)
      else none
    | _ => none
  | _ => none

/-- Entries that are not valid are dropped. -/
def resolveEntry (suite : SelectionSuite) (resolved : Selection) (raw : Json) : Selection :=
  match entryOf suite raw with
  | some (key, names) => select resolved key names
  | none => resolved

def resolveRunSelection (entries : Json) (suite : SelectionSuite) : Selection :=
  match entries with
  | .arr raws => raws.foldl (resolveEntry suite) []
  | _ => []

/-! ### Valid entries -/

/-- The suite has the file, under the project if it has projects. -/
def SelectionSuite.Has (suite : SelectionSuite) (key : SelectionKey) : Prop :=
  key.2 ∈ suite.testFiles ∧
    ((suite.projects = none ∧ key.1 = none) ∨
      ∃ projects p, suite.projects = some projects ∧ p ∈ projects ∧ key.1 = some p.name ∧
        key.2 ∈ p.testFiles)

/-- An entry that names a file of the suite, under one of the projects that have it, and asks for
    the test: by name, by the row of a file that failed to load, or as one of all tests. -/
structure Asks (suite : SelectionSuite) (fields : Json.Object) (key : SelectionKey)
    (fullName : String) : Prop where
  filePath : fields.opt "filePath" = some (.str key.2)
  has : suite.Has key
  project : ∀ name, key.1 = some name → fields.opt "projectName" = some (.str name)
  tests : fields.opt "tests" = none ∨ ∃ items, fields.opt "tests" = some (.arr items) ∧
    ∃ name, .str name ∈ items ∧ (name = fullName ∨ suite.isWholeFileName key.2 name = true)

/-- Names that cover a full name; none are all. -/
def Covers (names : Option (List String)) (fullName : String) : Prop :=
  ∀ l, names = some l → fullName ∈ l

variable {suite : SelectionSuite} {fields : Json.Object} {key : SelectionKey} {fullName : String}
  {names : Option (List String)}

theorem mem_strings {items : List Json} {name : String} : name ∈ strings items ↔ .str name ∈ items := by
  unfold strings
  rw [List.mem_filterMap]
  constructor
  · rintro ⟨item, hitem, hname⟩
    cases item with
    | str s =>
      obtain rfl := Option.some.inj hname
      exact hitem
    | _ => cases hname
  · exact fun h => ⟨.str name, h, rfl⟩

/-- The names of the projects of a suite are distinct. -/
def SelectionSuite.Distinct (suite : SelectionSuite) : Prop :=
  ∀ projects, suite.projects = some projects → (projects.map ResolvedProject.name).Nodup

theorem entryProject_of_projects (hdistinct : suite.Distinct) {projects : List ResolvedProject}
    (hprojects : suite.projects = some projects) {filePath : String}
    {project : Option String} : entryProject suite fields filePath = some project ↔
      ∃ p ∈ projects, project = some p.name ∧ filePath ∈ p.testFiles ∧
        fields.opt "projectName" = some (.str p.name) := by
  have hlookup : ∀ name, (Project.byName projects name).any (fun p => filePath ∈ p.testFiles) ↔
      ∃ p ∈ projects, p.name = name ∧ filePath ∈ p.testFiles := by
    intro name
    rw [Option.any_eq_true]
    constructor
    · rintro ⟨p, hp, hfile⟩
      obtain ⟨hmem, hname⟩ := Project.byName_some hp
      exact ⟨p, hmem, hname, of_decide_eq_true hfile⟩
    · rintro ⟨p, hp, rfl, hfile⟩
      exact ⟨p, Project.byName_of_mem (hdistinct projects hprojects) hp, decide_eq_true hfile⟩
  unfold entryProject
  rw [hprojects]
  cases hopt : fields.opt "projectName" with
  | none => simp
  | some value =>
    cases value with
    | str name =>
      dsimp only
      split
      next hany =>
        obtain ⟨p, hp, rfl, hfile⟩ := (hlookup name).mp hany
        constructor
        · intro h
          exact ⟨p, hp, (Option.some.inj h).symm, hfile, rfl⟩
        · rintro ⟨q, hq, rfl, -, hname⟩
          simpa using hname
      next hany =>
        constructor
        · intro h
          cases h
        · rintro ⟨q, hq, rfl, hfile, hname⟩
          refine absurd ((hlookup name).mpr ⟨q, hq, ?_, hfile⟩) hany
          simpa using hname.symm
    | _ => simp

theorem entryProject_iff (hdistinct : suite.Distinct) {filePath : String}
    (hfile : filePath ∈ suite.testFiles) {project : Option String} :
    entryProject suite fields filePath = some project ↔
      suite.Has (selectionKey project filePath) ∧
        ∀ name, project = some name → fields.opt "projectName" = some (.str name) := by
  cases hprojects : suite.projects with
  | none =>
    have hnone : entryProject suite fields filePath = some none := by
      unfold entryProject
      rw [hprojects]
    rw [hnone]
    constructor
    · intro h
      obtain rfl := Option.some.inj h
      exact ⟨⟨hfile, .inl ⟨hprojects, rfl⟩⟩, fun name hname => by cases hname⟩
    · rintro ⟨⟨-, h | ⟨projects, p, hsome, -⟩⟩, -⟩
      · exact congrArg some h.2.symm
      · cases hprojects.symm.trans hsome
  | some projects =>
    rw [entryProject_of_projects hdistinct hprojects]
    constructor
    · rintro ⟨p, hp, rfl, hmem, hname⟩
      refine ⟨⟨hfile, .inr ⟨projects, p, hprojects, hp, rfl, hmem⟩⟩, fun name heq => ?_⟩
      rw [hname, Option.some.inj heq]
    · rintro ⟨⟨-, h | ⟨projects', p, hsome, hp, hkey, hmem⟩⟩, hname⟩
      · cases hprojects.symm.trans h.1
      · obtain rfl := Option.some.inj (hprojects.symm.trans hsome)
        exact ⟨p, hp, hkey, hmem, hname p.name hkey⟩

theorem entryNames_iff {filePath : String} {tests : Option Json} :
    (∃ names, entryNames suite filePath tests = some names ∧ Covers names fullName) ↔
      tests = none ∨ ∃ items, tests = some (.arr items) ∧
        ∃ name, .str name ∈ items ∧
          (name = fullName ∨ suite.isWholeFileName filePath name = true) := by
  cases tests with
  | none => simp [entryNames, Covers]
  | some value =>
    cases value with
    | arr items =>
      unfold entryNames
      dsimp only
      split
      next hempty =>
        constructor
        · rintro ⟨names, h, -⟩
          cases h
        · rintro (h | ⟨items', h, name, hname, -⟩)
          · cases h
          · obtain rfl := Json.arr.inj (Option.some.inj h)
            rw [← mem_strings, hempty] at hname
            cases hname
      next hne =>
        split
        next hwhole =>
          obtain ⟨name, hname, hwhole⟩ := List.any_eq_true.mp hwhole
          constructor
          · exact fun _ => .inr ⟨items, rfl, name, mem_strings.mp hname, .inr hwhole⟩
          · exact fun _ => ⟨none, rfl, fun l hl => by cases hl⟩
        next hwhole =>
          constructor
          · rintro ⟨names, h, hcovers⟩
            obtain rfl := Option.some.inj h
            exact .inr ⟨items, rfl, fullName, mem_strings.mp (hcovers _ rfl), .inl rfl⟩
          · rintro (h | ⟨items', h, name, hname, rfl | hrow⟩)
            · cases h
            · obtain rfl := Json.arr.inj (Option.some.inj h)
              refine ⟨_, rfl, fun l hl => ?_⟩
              obtain rfl := Option.some.inj hl
              exact mem_strings.mpr hname
            · obtain rfl := Json.arr.inj (Option.some.inj h)
              exact absurd (List.any_eq_true.mpr ⟨name, mem_strings.mpr hname, hrow⟩) hwhole
    | _ => simp [entryNames]

/-- **Valid entries.**  What an entry covers under its key is what it asks for. -/
theorem entryOf_iff (hdistinct : suite.Distinct) {raw : Json} :
    (∃ names, entryOf suite raw = some (key, names) ∧ Covers names fullName) ↔
      ∃ fields, raw = .obj fields ∧ Asks suite fields key fullName := by
  constructor
  · rintro ⟨names, hentry, hcovers⟩
    unfold entryOf at hentry
    split at hentry
    next fields =>
      split at hentry
      next filePath hpath =>
        split at hentry
        next hfile =>
          obtain ⟨project, hproject, hmap⟩ := Option.bind_eq_some_iff.mp hentry
          obtain ⟨names', hnames, heq⟩ := Option.map_eq_some_iff.mp hmap
          obtain ⟨rfl, rfl⟩ := Prod.mk.inj heq
          obtain ⟨hhas, hname⟩ := (entryProject_iff hdistinct hfile).mp hproject
          exact ⟨fields, rfl, hpath, hhas, hname, entryNames_iff.mp ⟨names', hnames, hcovers⟩⟩
        next => cases hentry
      next => cases hentry
    next => cases hentry
  · rintro ⟨fields, rfl, hpath, hhas, hname, htests⟩
    obtain ⟨names, hnames, hcovers⟩ := entryNames_iff.mpr htests
    refine ⟨names, ?_, hcovers⟩
    have hproject : entryProject suite fields key.2 = some key.1 :=
      (entryProject_iff hdistinct hhas.1).mpr ⟨hhas, hname⟩
    simp only [entryOf, hpath, if_pos hhas.1, hproject, hnames, Option.bind_some, Option.map_some]
    rfl

/-! ### The selection -/

/-- The selection covers a test of a key. -/
def Selects (sel : Selection) (key : SelectionKey) (fullName : String) : Prop :=
  ∃ names, get key sel = some names ∧ Covers names fullName

theorem covers_none : Covers none fullName := by
  intro l h
  cases h

theorem covers_some {l : List String} : Covers (some l) fullName ↔ fullName ∈ l := by
  constructor
  · exact fun h => h l rfl
  · intro h l' hl'
    exact Option.some.inj hl' ▸ h

theorem selects_put {sel : Selection} {key' : SelectionKey} :
    Selects (put key names sel) key' fullName ↔
      (key' = key ∧ Covers names fullName) ∨ (key' ≠ key ∧ Selects sel key' fullName) := by
  unfold Selects
  rw [get_put]
  by_cases hkey : key' = key
  · simp [hkey]
  · simp [hkey]

/-- An entry adds what it names, to what is selected in its file already. -/
theorem selects_select {sel : Selection} {key' : SelectionKey} :
    Selects (select sel key names) key' fullName ↔
      Selects sel key' fullName ∨ (key' = key ∧ Covers names fullName) := by
  cases names with
  | none =>
    show Selects (put key none sel) key' fullName ↔ _
    rw [selects_put]
    by_cases hkey : key' = key <;> simp [hkey, covers_none]
  | some l =>
    cases hget : get key sel with
    | none =>
      simp only [select, hget]
      rw [selects_put, covers_some, covers_some, mem_addAll]
      by_cases hkey : key' = key <;> simp [hkey, Selects, hget]
    | some prior =>
      cases prior with
      | none =>
        simp only [select, hget]
        by_cases hkey : key' = key <;> simp [hkey, Selects, hget, covers_none]
      | some prior =>
        simp only [select, hget]
        rw [selects_put, covers_some, covers_some, mem_addAll]
        by_cases hkey : key' = key <;> simp [hkey, Selects, hget, covers_some]

theorem selects_resolveEntry (hdistinct : suite.Distinct) {sel : Selection} {raw : Json} :
    Selects (resolveEntry suite sel raw) key fullName ↔
      Selects sel key fullName ∨ ∃ fields, raw = .obj fields ∧ Asks suite fields key fullName := by
  rw [← entryOf_iff hdistinct]
  unfold resolveEntry
  split
  next key' names hentry =>
    rw [selects_select, hentry]
    constructor
    · rintro (h | ⟨rfl, hcovers⟩)
      · exact .inl h
      · exact .inr ⟨names, rfl, hcovers⟩
    · rintro (h | ⟨names', heq, hcovers⟩)
      · exact .inl h
      · obtain ⟨rfl, rfl⟩ := Prod.mk.inj (Option.some.inj heq)
        exact .inr ⟨rfl, hcovers⟩
  next hentry => simp [hentry]

/-- **The server selects** what the valid entries of a message ask for. -/
theorem mem_resolve (hdistinct : suite.Distinct) (raws : List Json) :
    Selects (resolveRunSelection (.arr raws) suite) key fullName ↔
      ∃ fields, .obj fields ∈ raws ∧ Asks suite fields key fullName := by
  have hfold : ∀ {sel : Selection}, Selects (raws.foldl (resolveEntry suite) sel) key fullName ↔
      Selects sel key fullName ∨ ∃ fields, .obj fields ∈ raws ∧ Asks suite fields key fullName := by
    induction raws with
    | nil => simp
    | cons raw raws ih =>
      intro sel
      rw [List.foldl_cons, ih, selects_resolveEntry hdistinct, or_assoc]
      refine or_congr_right ?_
      constructor
      · rintro (⟨fields, rfl, hasks⟩ | ⟨fields, hmem, hasks⟩)
        · exact ⟨fields, List.mem_cons_self, hasks⟩
        · exact ⟨fields, List.mem_cons_of_mem _ hmem, hasks⟩
      · rintro ⟨fields, hmem, hasks⟩
        rcases List.mem_cons.mp hmem with heq | hmem
        · exact .inl ⟨fields, heq.symm, hasks⟩
        · exact .inr ⟨fields, hmem, hasks⟩
  show Selects (raws.foldl (resolveEntry suite) []) key fullName ↔ _
  rw [hfold]
  simp [Selects, Entries.get]

theorem exists_covers_of_entryOf {raw : Json} (h : entryOf suite raw = some (key, names)) :
    ∃ fullName, Covers names fullName := by
  have hnames : ∀ {filePath : String} {tests : Option Json},
      entryNames suite filePath tests = some names → ∃ fullName, Covers names fullName := by
    intro filePath tests hnames
    unfold entryNames at hnames
    split at hnames
    · obtain rfl := Option.some.inj hnames
      exact ⟨"", covers_none⟩
    · dsimp only at hnames
      split at hnames
      · cases hnames
      next hne =>
        split at hnames
        · obtain rfl := Option.some.inj hnames
          exact ⟨"", covers_none⟩
        · obtain rfl := Option.some.inj hnames
          obtain ⟨name, hname⟩ := List.exists_mem_of_ne_nil _ hne
          exact ⟨name, covers_some.mpr hname⟩
    · cases hnames
  unfold entryOf at h
  split at h
  · split at h
    · split at h
      · obtain ⟨project, -, hmap⟩ := Option.bind_eq_some_iff.mp h
        obtain ⟨names', hnames', heq⟩ := Option.map_eq_some_iff.mp hmap
        obtain ⟨-, rfl⟩ := Prod.mk.inj heq
        exact hnames hnames'
      · cases h
    · cases h
  · cases h

/-- Wherever a key is selected, some name is. -/
def Filled (sel : Selection) : Prop :=
  ∀ key names, get key sel = some names → ∃ fullName, Covers names fullName

theorem get_select_of_ne {sel : Selection} {key' : SelectionKey} (hkey : key' ≠ key) :
    get key' (select sel key names) = get key' sel := by
  unfold select
  split
  · rw [get_put, if_neg hkey]
  · rfl
  · rw [get_put, if_neg hkey]
  · rw [get_put, if_neg hkey]

theorem filled_select {sel : Selection} (h : Filled sel)
    (hcovers : ∃ fullName, Covers names fullName) : Filled (select sel key names) := by
  intro key' names' hget
  by_cases hkey : key' = key
  · obtain ⟨fullName, hcovers⟩ := hcovers
    have hselects : Selects (select sel key names) key' fullName :=
      selects_select.mpr (.inr ⟨hkey, hcovers⟩)
    obtain ⟨names'', hget', hcovers'⟩ := hselects
    obtain rfl := Option.some.inj (hget.symm.trans hget')
    exact ⟨fullName, hcovers'⟩
  · rw [get_select_of_ne hkey] at hget
    exact h key' names' hget

theorem filled_resolve (raws : List Json) : Filled (resolveRunSelection (.arr raws) suite) := by
  have hfold : ∀ {sel : Selection}, Filled sel → Filled (raws.foldl (resolveEntry suite) sel) := by
    induction raws with
    | nil => exact fun h => h
    | cons raw raws ih =>
      intro sel hsel
      refine ih ?_
      unfold resolveEntry
      split
      next hentry => exact filled_select hsel (exists_covers_of_entryOf hentry)
      next => exact hsel
  exact hfold fun key names hget => by cases hget

end Tapsmith.RunAll
