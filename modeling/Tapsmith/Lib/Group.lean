import Mathlib.Data.List.Forall2

namespace Lib

/-!
# Groups

Trees whose nodes carry a label, leaves of their own, and further groups.

* `Group.leaves`, `Group.map` — the leaves from left to right; a function at each of them;
* `Group.mapState` — a function with a state, taken through the leaves in order;
* `Group.mapState_fst`, `Group.mapState_snd` — its two halves: a plain map where the results do not
  depend on the state, and a fold over the leaves.
-/

inductive Group (ι α : Type) where
  | mk (label : ι) (leaves : List α) (groups : List (Group ι α))

namespace Group

variable {ι α β γ σ : Type}

def label : Group ι α → ι
  | mk label _ _ => label

def own : Group ι α → List α
  | mk _ own _ => own

def groups : Group ι α → List (Group ι α)
  | mk _ _ groups => groups

mutual

def leaves : Group ι α → List α
  | mk _ own groups => own ++ leavesAll groups

def leavesAll : List (Group ι α) → List α
  | [] => []
  | g :: gs => leaves g ++ leavesAll gs

end

mutual

def map (f : α → β) : Group ι α → Group ι β
  | mk label own groups => mk label (own.map f) (mapAll f groups)

def mapAll (f : α → β) : List (Group ι α) → List (Group ι β)
  | [] => []
  | g :: gs => map f g :: mapAll f gs

end

/-- A function with a state along a list. -/
def stateList (f : α → σ → β × σ) : List α → σ → List β × σ
  | [], s => ([], s)
  | a :: as, s =>
    let first := f a s
    let rest := stateList f as first.2
    (first.1 :: rest.1, rest.2)

mutual

def mapState (f : α → σ → β × σ) : Group ι α → σ → Group ι β × σ
  | mk label own groups, s =>
    let first := stateList f own s
    let rest := mapStateAll f groups first.2
    (mk label first.1 rest.1, rest.2)

def mapStateAll (f : α → σ → β × σ) : List (Group ι α) → σ → List (Group ι β) × σ
  | [], s => ([], s)
  | g :: gs, s =>
    let first := mapState f g s
    let rest := mapStateAll f gs first.2
    (first.1 :: rest.1, rest.2)

end

theorem leavesAll_eq_flatMap : ∀ gs : List (Group ι α), leavesAll gs = gs.flatMap leaves
  | [] => rfl
  | g :: gs => by
    show leaves g ++ leavesAll gs = leaves g ++ gs.flatMap leaves
    rw [leavesAll_eq_flatMap gs]

mutual

theorem leaves_map (f : α → β) : ∀ g : Group ι α, leaves (map f g) = (leaves g).map f
  | mk label own groups => by
    show own.map f ++ leavesAll (mapAll f groups) = (own ++ leavesAll groups).map f
    rw [leavesAll_mapAll f groups, List.map_append]

theorem leavesAll_mapAll (f : α → β) :
    ∀ gs : List (Group ι α), leavesAll (mapAll f gs) = (leavesAll gs).map f
  | [] => rfl
  | g :: gs => by
    show leaves (map f g) ++ leavesAll (mapAll f gs) = (leaves g ++ leavesAll gs).map f
    rw [leaves_map f g, leavesAll_mapAll f gs, List.map_append]

end

mutual

theorem map_map (f : α → β) (h : β → γ) : ∀ g : Group ι α, map h (map f g) = map (h ∘ f) g
  | mk label own groups => by
    show mk label ((own.map f).map h) (mapAll h (mapAll f groups)) = _
    rw [mapAll_mapAll f h groups, List.map_map]
    rfl

theorem mapAll_mapAll (f : α → β) (h : β → γ) :
    ∀ gs : List (Group ι α), mapAll h (mapAll f gs) = mapAll (h ∘ f) gs
  | [] => rfl
  | g :: gs => by
    show map h (map f g) :: mapAll h (mapAll f gs) = map (h ∘ f) g :: mapAll (h ∘ f) gs
    rw [map_map f h g, mapAll_mapAll f h gs]

end

section State

variable {f : α → σ → β × σ} {g : α → β}

theorem stateList_fst (h : ∀ a s, (f a s).1 = g a) (as : List α) (s : σ) :
    (stateList f as s).1 = as.map g := by
  induction as generalizing s with
  | nil => rfl
  | cons a as ih =>
    show (f a s).1 :: (stateList f as (f a s).2).1 = g a :: as.map g
    rw [h, ih]

theorem stateList_snd (as : List α) (s : σ) :
    (stateList f as s).2 = as.foldl (fun s a => (f a s).2) s := by
  induction as generalizing s with
  | nil => rfl
  | cons a as ih => exact ih (f a s).2

mutual

theorem mapState_fst (h : ∀ a s, (f a s).1 = g a) :
    ∀ (t : Group ι α) (s : σ), (mapState f t s).1 = map g t
  | mk label own groups, s => by
    show mk label (stateList f own s).1 (mapStateAll f groups (stateList f own s).2).1 = _
    rw [stateList_fst h, mapStateAll_fst h groups]
    rfl

theorem mapStateAll_fst (h : ∀ a s, (f a s).1 = g a) :
    ∀ (ts : List (Group ι α)) (s : σ), (mapStateAll f ts s).1 = mapAll g ts
  | [], _ => rfl
  | t :: ts, s => by
    show (mapState f t s).1 :: (mapStateAll f ts (mapState f t s).2).1 = _
    rw [mapState_fst h t, mapStateAll_fst h ts]
    rfl

end

mutual

theorem mapState_snd : ∀ (t : Group ι α) (s : σ),
    (mapState f t s).2 = (leaves t).foldl (fun s a => (f a s).2) s
  | mk label own groups, s => by
    show (mapStateAll f groups (stateList f own s).2).2 =
      (own ++ leavesAll groups).foldl (fun s a => (f a s).2) s
    rw [mapStateAll_snd groups, stateList_snd, List.foldl_append]

theorem mapStateAll_snd : ∀ (ts : List (Group ι α)) (s : σ),
    (mapStateAll f ts s).2 = (leavesAll ts).foldl (fun s a => (f a s).2) s
  | [], _ => rfl
  | t :: ts, s => by
    show (mapStateAll f ts (mapState f t s).2).2 =
      (leaves t ++ leavesAll ts).foldl (fun s a => (f a s).2) s
    rw [mapStateAll_snd ts, mapState_snd t, List.foldl_append]

end

end State

end Group

end Lib
