import Tapsmith.Lib.Entries

namespace Lib.Entries

/-!
# Entries that are collected

Entries looked up for a list of names, one after the other, and entries written one after the other
into none.

* `get_collect` — what is collected is what the lookup gives, for the names of the list;
* `putAll_of_nodup` — entries with different names are written as they are;
* `get_filter_map` — a part of entries with different names.
-/

variable {κ α : Type} [DecidableEq κ]

/-- The entries that a lookup gives for a list of names. -/
def collect (lookup : κ → Option α) (names : List κ) : List (κ × α) :=
  names.foldl (fun entries name =>
    match lookup name with
    | some content => put name content entries
    | none => entries) []

theorem get_collect_append (lookup : κ → Option α) (names : List κ) (entries : List (κ × α))
    (name : κ) :
    get name (names.foldl (fun entries name =>
      match lookup name with
      | some content => put name content entries
      | none => entries) entries) =
      if name ∈ names then (lookup name).or (get name entries) else get name entries := by
  induction names generalizing entries with
  | nil => simp
  | cons n names ih =>
    rw [List.foldl_cons, ih]
    cases hlookup : lookup n with
    | none =>
      by_cases hname : name = n
      · subst hname
        simp [hlookup]
      · simp [hname]
    | some content =>
      dsimp only
      rw [get_put]
      by_cases hname : name = n
      · subst hname
        simp [hlookup]
      · simp [hname]

theorem get_collect (lookup : κ → Option α) (names : List κ) (name : κ) :
    get name (collect lookup names) = if name ∈ names then lookup name else none := by
  rw [collect, get_collect_append]
  simp [get]

/-- Collecting depends on the lookup of the names alone. -/
theorem collect_congr {lookup lookup' : κ → Option α} {names : List κ}
    (h : ∀ name ∈ names, lookup name = lookup' name) :
    collect lookup names = collect lookup' names := by
  refine List.foldl_ext _ _ _ fun entries name hname => ?_
  rw [h name hname]

/-- Collecting what was collected. -/
theorem collect_collect (lookup : κ → Option α) (names : List κ) :
    collect (fun name => get name (collect lookup names)) names = collect lookup names := by
  refine collect_congr fun name hname => ?_
  rw [get_collect, if_pos hname]

/-- Entries that are written one after the other. -/
def putAll (new entries : List (κ × α)) : List (κ × α) :=
  new.foldl (fun entries entry => put entry.1 entry.2 entries) entries

theorem putAll_of_nodup {new entries : List (κ × α)} (h : ((entries ++ new).map Prod.fst).Nodup) :
    putAll new entries = entries ++ new := by
  induction new generalizing entries with
  | nil => rw [List.append_nil]; rfl
  | cons entry new ih =>
    have hfresh : entry.1 ∉ entries.map Prod.fst := by
      rw [List.map_append, List.nodup_append] at h
      exact fun hmem => h.2.2 _ hmem _ (by simp) rfl
    have hput : put entry.1 entry.2 entries = entries ++ [entry] := if_neg hfresh
    show putAll new (put entry.1 entry.2 entries) = _
    rw [hput, ih (by rwa [List.append_assoc]), List.append_assoc, List.singleton_append]

theorem nodup_put {entries : List (κ × α)} {name : κ} {content : α}
    (h : (entries.map Prod.fst).Nodup) : ((put name content entries).map Prod.fst).Nodup := by
  unfold put
  split
  case isTrue =>
    rw [List.map_map]
    convert h using 2
    funext entry
    by_cases hname : entry.1 = name
    · simp [hname]
    · simp [hname]
  case isFalse hmem =>
    rw [List.map_append, List.map_singleton, List.nodup_append]
    refine ⟨h, List.nodup_singleton _, fun a ha b hb hab => hmem ?_⟩
    have hname : b = name := List.mem_singleton.mp hb
    rw [← hname, ← hab]
    exact ha

theorem get_of_mem {entries : List (κ × α)} (h : (entries.map Prod.fst).Nodup) {name : κ}
    {content : α} (hmem : (name, content) ∈ entries) : get name entries = some content := by
  induction entries with
  | nil => exact absurd hmem List.not_mem_nil
  | cons entry entries ih =>
    rw [List.map_cons, List.nodup_cons] at h
    rw [get_cons]
    rcases List.mem_cons.mp hmem with rfl | hmem
    · rw [if_pos rfl]
    · have hname : entry.1 ≠ name := fun heq =>
        h.1 (heq ▸ List.mem_map_of_mem (f := Prod.fst) hmem)
      rw [if_neg hname, ih h.2 hmem]

/-- The content of a name in a part of entries with different names. -/
theorem get_filter_map {β : Type} (keep : κ × α → Bool) (f : α → β) {entries : List (κ × α)}
    (hnodup : (entries.map Prod.fst).Nodup) (name : κ) :
    get name ((entries.filter keep).map fun entry => (entry.1, f entry.2)) =
      ((get name entries).filter fun content => keep (name, content)).map f := by
  induction entries with
  | nil => rfl
  | cons entry entries ih =>
    rw [List.map_cons, List.nodup_cons] at hnodup
    rw [get_cons]
    by_cases hname : entry.1 = name
    · subst hname
      rw [if_pos rfl, List.filter_cons]
      by_cases hkeep : keep entry = true
      · rw [if_pos hkeep, List.map_cons, get_cons, if_pos rfl, Option.filter_some, if_pos hkeep]
        rfl
      · rw [if_neg hkeep, ih hnodup.2, get_eq_none hnodup.1, Option.filter_some, if_neg hkeep]
        rfl
    · rw [if_neg hname, ← ih hnodup.2, List.filter_cons]
      by_cases hkeep : keep entry = true
      · rw [if_pos hkeep, List.map_cons, get_cons, if_neg hname]
      · rw [if_neg hkeep]

end Lib.Entries
