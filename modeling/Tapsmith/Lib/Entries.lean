import Mathlib.Data.List.Nodup

namespace Lib.Entries

/-!
# Entries

A directory, or an object, as the list of its entries: a name and a content each.

* `get` — the content of a name;
* `add`, `put` — an entry that is written only where the name is free, and one that replaces what
  stands there;
* `erase` — the entries without a name;
* `addAll` — entries that are added one after the other;
* `Extends new old entries` — the entries are some of the old and the new ones, under all of their
  names.  That is what adding and putting have in common, and what a whole run of them keeps.
-/

variable {κ α : Type} [DecidableEq κ]

def get (name : κ) (entries : List (κ × α)) : Option α :=
  (entries.find? (·.1 = name)).map Prod.snd

/-- Nothing is overwritten. -/
def add (name : κ) (content : α) (entries : List (κ × α)) : List (κ × α) :=
  if name ∈ entries.map Prod.fst then entries else entries ++ [(name, content)]

/-- What stands there is overwritten, in its place. -/
def put (name : κ) (content : α) (entries : List (κ × α)) : List (κ × α) :=
  if name ∈ entries.map Prod.fst then
    entries.map fun entry => if entry.1 = name then (name, content) else entry
  else entries ++ [(name, content)]

def erase (name : κ) (entries : List (κ × α)) : List (κ × α) :=
  entries.filter (·.1 ≠ name)

def addAll (new entries : List (κ × α)) : List (κ × α) :=
  new.foldl (fun entries entry => add entry.1 entry.2 entries) entries

theorem addAll_append (new new' entries : List (κ × α)) :
    addAll (new ++ new') entries = addAll new' (addAll new entries) :=
  List.foldl_append

variable {name : κ} {content : α} {entries : List (κ × α)}

theorem mem_of_get (h : get name entries = some content) : (name, content) ∈ entries := by
  obtain ⟨⟨n, c⟩, hfind, rfl⟩ := Option.map_eq_some_iff.mp h
  have hname : n = name := by simpa using List.find?_some hfind
  subst hname
  exact List.mem_of_find?_eq_some hfind

theorem exists_get (h : name ∈ entries.map Prod.fst) : ∃ c, get name entries = some c := by
  obtain ⟨entry, hentry, rfl⟩ := List.mem_map.mp h
  have hsome : (entries.find? (·.1 = entry.1)).isSome :=
    List.find?_isSome.mpr ⟨entry, hentry, decide_eq_true rfl⟩
  obtain ⟨found, hfound⟩ := Option.isSome_iff_exists.mp hsome
  exact ⟨found.2, Option.map_eq_some_iff.mpr ⟨found, hfound, rfl⟩⟩

theorem mem_put {entry : κ × α} (h : entry ∈ put name content entries) :
    entry = (name, content) ∨ (entry ∈ entries ∧ entry.1 ≠ name) := by
  unfold put at h
  split at h
  · obtain ⟨old, hold, heq⟩ := List.mem_map.mp h
    by_cases hname : old.1 = name
    · rw [if_pos hname] at heq
      exact .inl heq.symm
    · rw [if_neg hname] at heq
      subst heq
      exact .inr ⟨hold, hname⟩
  case isFalse hmem =>
    rcases List.mem_append.mp h with h | h
    · exact .inr ⟨h, fun hname => hmem (hname ▸ List.mem_map_of_mem h)⟩
    · exact .inl (List.mem_singleton.mp h)

theorem mem_names_put {name' : κ} : name' ∈ (put name content entries).map Prod.fst ↔
    name' = name ∨ name' ∈ entries.map Prod.fst := by
  unfold put
  split
  case isTrue hmem =>
    have hnames : (entries.map fun entry => if entry.1 = name then (name, content) else entry).map
        Prod.fst = entries.map Prod.fst := by
      rw [List.map_map]
      refine List.map_congr_left fun entry _ => ?_
      by_cases hname : entry.1 = name
      · simp [hname]
      · simp [hname]
    rw [hnames]
    refine ⟨Or.inr, fun h => ?_⟩
    rcases h with rfl | h
    · exact hmem
    · exact h
  case isFalse => rw [List.map_append, List.mem_append, List.map_singleton, List.mem_singleton,
      or_comm]

theorem get_cons {entry : κ × α} :
    get name (entry :: entries) = if entry.1 = name then some entry.2 else get name entries := by
  unfold get
  rw [List.find?_cons]
  by_cases hname : entry.1 = name
  · simp [hname]
  · simp [hname]

theorem get_eq_none (h : name ∉ entries.map Prod.fst) : get name entries = none := by
  cases hget : get name entries with
  | none => rfl
  | some c => exact absurd (List.mem_map_of_mem (mem_of_get hget)) h

theorem get_append {more : List (κ × α)} :
    get name (entries ++ more) = (get name entries).or (get name more) := by
  induction entries with
  | nil => rfl
  | cons entry entries ih =>
    rw [List.cons_append, get_cons, get_cons, ih]
    by_cases hname : entry.1 = name
    · simp [hname]
    · simp [hname]

theorem get_overwritten {name' : κ} :
    get name' (entries.map fun entry => if entry.1 = name then (name, content) else entry) =
      if name' = name then (get name' entries).map fun _ => content else get name' entries := by
  induction entries with
  | nil => simp [get]
  | cons entry entries ih =>
    rw [List.map_cons, get_cons, get_cons, ih]
    by_cases hname : entry.1 = name
    · by_cases hname' : name' = name
      · simp [hname, hname']
      · simp [hname, hname', Ne.symm hname']
    · by_cases hname' : name' = name
      · simp [hname, hname']
      · simp [hname, hname']

/-- Writing an entry leaves the others as they are. -/
theorem get_put {name' : κ} : get name' (put name content entries) =
    if name' = name then some content else get name' entries := by
  unfold put
  split
  case isTrue hmem =>
    rw [get_overwritten]
    by_cases hname : name' = name
    · subst hname
      obtain ⟨c, hc⟩ := exists_get hmem
      simp [hc]
    · simp [hname]
  case isFalse hmem =>
    rw [get_append, get_cons]
    by_cases hname : name' = name
    · simp [hname, get_eq_none hmem]
    · simp [hname, Ne.symm hname, get]

theorem get_erase {name' : κ} : get name' (erase name entries) =
    if name' = name then none else get name' entries := by
  unfold erase
  induction entries with
  | nil => simp [get]
  | cons entry entries ih =>
    by_cases hname : entry.1 = name
    · rw [List.filter_cons_of_neg (by simp [hname]), ih, get_cons]
      by_cases hname' : name' = name
      · simp [hname']
      · simp [hname, hname', Ne.symm hname']
    · rw [List.filter_cons_of_pos (by simp [hname]), get_cons, get_cons, ih]
      by_cases hname' : name' = name
      · simp [hname, hname']
      · simp [hname']

/-! ### Extensions -/

structure Extends (new old entries : List (κ × α)) : Prop where
  mem : ∀ entry ∈ entries, entry ∈ new ∨ entry ∈ old
  names : ∀ name, name ∈ entries.map Prod.fst ↔ name ∈ new.map Prod.fst ∨ name ∈ old.map Prod.fst

variable {new new' old mid : List (κ × α)}

omit [DecidableEq κ] in
theorem Extends.refl (entries : List (κ × α)) : Extends [] entries entries where
  mem _ h := .inr h
  names _ := by simp

omit [DecidableEq κ] in
theorem Extends.trans (h : Extends new old mid) (h' : Extends new' mid entries) :
    Extends (new ++ new') old entries where
  mem entry hentry := by
    rcases h'.mem entry hentry with hnew | hmid
    · exact .inl (List.mem_append_right _ hnew)
    · rcases h.mem entry hmid with hnew | hold
      · exact .inl (List.mem_append_left _ hnew)
      · exact .inr hold
  names name := by
    rw [h'.names, h.names, List.map_append, List.mem_append, or_left_comm, or_assoc]

theorem extends_add : Extends [(name, content)] entries (add name content entries) := by
  unfold add
  split
  case isTrue hmem =>
    refine ⟨fun entry h => .inr h, fun n => ⟨Or.inr, fun h => ?_⟩⟩
    rcases h with h | h
    · rw [List.map_singleton, List.mem_singleton] at h
      exact h ▸ hmem
    · exact h
  case isFalse =>
    refine ⟨fun entry h => (List.mem_append.mp h).symm, fun n => ?_⟩
    rw [List.map_append, List.mem_append, or_comm]

theorem extends_addAll : Extends new entries (addAll new entries) := by
  induction new generalizing entries with
  | nil => exact .refl entries
  | cons entry new ih => exact extends_add.trans ih

theorem nodup_addAll (h : (entries.map Prod.fst).Nodup) :
    ((addAll new entries).map Prod.fst).Nodup := by
  induction new generalizing entries with
  | nil => exact h
  | cons entry new ih =>
    refine ih ?_
    show ((add entry.1 entry.2 entries).map Prod.fst).Nodup
    unfold add
    split
    case isTrue => exact h
    case isFalse hmem =>
      rw [List.map_append, List.map_singleton, List.nodup_append]
      refine ⟨h, List.nodup_singleton _, fun a ha b hb hab => hmem ?_⟩
      rw [← List.mem_singleton.mp hb, ← hab]
      exact ha

omit [DecidableEq κ] in
/-- A run whose steps extend the entries of the state. -/
theorem Extends.foldl {β σ : Type} {step : σ → β → σ} {entries : σ → List (κ × α)}
    {new : β → List (κ × α)} (h : ∀ s b, Extends (new b) (entries s) (entries (step s b)))
    (bs : List β) (s : σ) : Extends (bs.flatMap new) (entries s) (entries (bs.foldl step s)) := by
  induction bs generalizing s with
  | nil => exact .refl _
  | cons b bs ih => exact (h s b).trans (ih (step s b))

end Lib.Entries
