import Mathlib.Algebra.BigOperators.Group.List.Basic
import Mathlib.Algebra.GroupWithZero.Nat
import Mathlib.Algebra.Order.BigOperators.Group.List
import Mathlib.Algebra.Order.Ring.Nat
import Mathlib.Data.List.Sort
import Mathlib.Logic.Relation
import Tapsmith.Agent.TouchPlanner

namespace Tapsmith.Agent.Occlusion

open TouchPlanner (Box)

/-!
# Covers in the target's own window

`OcclusionAnalyzer.kt`: the search for a touchable node that is painted over a point of the target,
in the accessibility tree of the target's window.

* `HitTree` — the tree as the search reads it;
* `findCoverInWindow` — the search, with its two budgets of reads;
* `Covers` — the nodes the search is for;
* `findCoverInWindow_exact` — it finds one exactly if there is one, in a tree that fits the budgets.
-/

def MAX_NODES_VISITED : ℕ := 2000

def MAX_PATH_NODES_VISITED : ℕ := 10000

/-- `HitNode`, as functions of the node. -/
structure HitTree (N : Type) where
  bounds : N → Box
  drawingOrder : N → ℤ
  isVisible : N → Bool
  takesTouches : N → Bool
  offersDismiss : N → Bool
  parent : N → Option N
  childCount : N → ℕ
  child : N → ℕ → Option N
  sameAs : N → N → Bool
  describe : N → String

/-- `Box.contains(x, y)` -/
def containsPoint (b : Box) (x y : ℤ) : Bool :=
  b.left ≤ x && x < b.right && b.top ≤ y && y < b.bottom

variable {N : Type} (tree : HitTree N)

/-! ### Reads on a budget -/

/-- `BudgetedReader.child`: the child, and what is left of the budget. -/
def readChild (node : N) (index left : ℕ) : Option N × ℕ :=
  if left = 0 then (none, 0) else (tree.child node index, left - 1)

/-- The first of so many children from an index on that is the node. -/
def indexOf (level node : N) : ℕ → ℕ → ℕ → Option ℕ × ℕ
  | _, 0, left => (none, left)
  | i, more + 1, left =>
    let read := readChild tree level i left
    if read.1.any (tree.sameAs · node) then (some i, read.2)
    else indexOf level node (i + 1) more read.2

/-- A parent, the target's branch below it and the index of the branch. -/
structure Level (N : Type) where
  node : N
  branch : N
  branchIndex : ℕ

/-- The levels from a node up. Each costs a read, so no more of them than reads are left. -/
def levelsFrom (node : N) : ℕ → ℕ → List (Level N)
  | 0, _ => []
  | fuel + 1, left =>
    (tree.parent node).elim [] fun level =>
      let found := indexOf tree level node 0 (tree.childCount level) left
      found.1.elim [] fun index =>
        { node := level, branch := node, branchIndex := index } :: levelsFrom level fuel found.2

def levels (target : N) : List (Level N) :=
  levelsFrom tree target (MAX_PATH_NODES_VISITED + 1) MAX_PATH_NODES_VISITED

/-! ### The search -/

def drawKey (node : N) (index : ℕ) : ℤ × ℕ := (tree.drawingOrder node, index)

/-- `compareKeys(a, b) <= 0` -/
def keyLe (a b : ℤ × ℕ) : Bool := a.1 < b.1 || a.1 == b.1 && a.2 ≤ b.2

/-- `compareKeys(a, b) > 0` -/
def keyGt (a b : ℤ × ℕ) : Bool := !keyLe a b

/-- The children at these indices that can be read, with their keys. -/
def readChildren (node : N) : List ℕ → ℕ → List (N × (ℤ × ℕ)) × ℕ
  | [], left => ([], left)
  | i :: rest, left =>
    let read := readChild tree node i left
    let more := readChildren node rest read.2
    ((read.1.map fun child => (child, drawKey tree child i)).toList ++ more.1, more.2)

/-- The loop of `searchSubtree`; the first node of the stack is popped next. Every node but the root
    costs a read, so the loop ends within as many turns as reads are left, and one. -/
def searchStack (x y : ℤ) : ℕ → List N → ℕ → Option N × ℕ
  | 0, _, left => (none, left)
  | _ + 1, [], left => (none, left)
  | fuel + 1, node :: stack, left =>
    if !tree.isVisible node || !containsPoint (tree.bounds node) x y then
      searchStack x y fuel stack left
    else if tree.takesTouches node then (some node, left)
    else if left = 0 then (none, left)
    else
      let read := readChildren tree node (List.range (tree.childCount node)) left
      let children := read.1.mergeSort fun a b => keyLe a.2 b.2
      searchStack x y fuel ((children.map Prod.fst).reverse ++ stack) read.2

def searchSubtree (root : N) (x y : ℤ) (left : ℕ) : Option N × ℕ :=
  searchStack tree x y (left + 2) [root] left

def isModalBarrierBehind (sibling : N) (key branchKey : ℤ × ℕ) : Bool :=
  key.1 == 0 && branchKey.1 == 0 && tree.offersDismiss sibling && tree.childCount sibling == 0

/-- The first cover in the subtrees of these siblings. -/
def searchSiblings (x y : ℤ) : List N → ℕ → Option N × ℕ
  | [], left => (none, left)
  | sibling :: rest, left =>
    let found := searchSubtree tree sibling x y left
    if found.1.isSome then found else searchSiblings x y rest found.2

/-- The siblings of a branch that are painted after it, topmost first. -/
def laterSiblings (level : Level N) (left : ℕ) : List N × ℕ :=
  let branchKey := drawKey tree level.branch level.branchIndex
  let indices := (List.range (tree.childCount level.node)).filter (· ≠ level.branchIndex)
  let read := readChildren tree level.node indices left
  let later := read.1.filter fun entry =>
    keyGt entry.2 branchKey && !isModalBarrierBehind tree entry.1 entry.2 branchKey
  ((later.mergeSort fun a b => keyLe b.2 a.2).map Prod.fst, read.2)

/-- The levels from the root down. -/
def searchLevels (x y : ℤ) : List (Level N) → ℕ → Option N
  | [], _ => none
  | level :: rest, left =>
    let later := laterSiblings tree level left
    let found := searchSiblings tree x y later.1 later.2
    if found.1.isSome then found.1
    else if found.2 = 0 then none
    else searchLevels x y rest found.2

def findCoverInWindow (target : N) (x y : ℤ) : Option N :=
  searchLevels tree x y (levels tree target).reverse MAX_NODES_VISITED

/-! ### Trees -/

/-- The node is in the subtree of the root. -/
def Inside (root node : N) : Prop :=
  Relation.ReflTransGen (fun c p => tree.parent c = some p) node root

/-- A finite tree, in which every node is found among its parent's children, and no node shows more
    than its parent. `slots` counts the children in the subtree of a node. -/
structure Regular (slots : N → ℕ) : Prop where
  sameAs_iff : ∀ a b, tree.sameAs a b = true ↔ a = b
  parent_iff : ∀ c p, tree.parent c = some p ↔
    ∃ i, i < tree.childCount p ∧ tree.child p i = some c
  child_inj : ∀ p c i j, i < tree.childCount p → j < tree.childCount p →
    tree.child p i = some c → tree.child p j = some c → i = j
  slots_eq : ∀ n, slots n = tree.childCount n +
    ((List.range (tree.childCount n)).map fun i => (tree.child n i).elim 0 slots).sum
  visible : ∀ c p, tree.parent c = some p → tree.isVisible c = true → tree.isVisible p = true
  bounds : ∀ c p x y, tree.parent c = some p → containsPoint (tree.bounds c) x y = true →
    containsPoint (tree.bounds p) x y = true

/-- What a touch at the point meets with. -/
structure Takes (x y : ℤ) (node : N) : Prop where
  visible : tree.isVisible node = true
  contains : containsPoint (tree.bounds node) x y = true
  touches : tree.takesTouches node = true

/-- The later child of a node is painted after the earlier one: by drawing order, then by place. -/
def PaintedAfter (node : N) (earlier later : N) : Prop :=
  ∃ i j, i < tree.childCount node ∧ j < tree.childCount node ∧
    tree.child node i = some earlier ∧ tree.child node j = some later ∧
    (tree.drawingOrder earlier < tree.drawingOrder later ∨
      tree.drawingOrder earlier = tree.drawingOrder later ∧ i < j)

/-- A node that a touch at the point hits instead of the target: it is neither the target nor its
    ancestor or descendant, and where the two branches split its own is painted after the target's. -/
structure Covers (target : N) (x y : ℤ) (node : N) : Prop where
  takes : Takes tree x y node
  not_descendant : ¬ Inside tree target node
  not_ancestor : ¬ Inside tree node target
  painted : ∃ split branch branch', PaintedAfter tree split branch branch' ∧
    Inside tree branch target ∧ Inside tree branch' node

section

variable {tree} {slots : N → ℕ} (h : Regular tree slots)
include h

theorem Regular.slots_child {n c : N} {i : ℕ} (hi : i < tree.childCount n)
    (hc : tree.child n i = some c) : tree.childCount n + slots c ≤ slots n := by
  rw [h.slots_eq n]
  apply Nat.add_le_add_left
  exact List.single_le_sum (fun _ _ => Nat.zero_le _) _ <| List.mem_map.mpr ⟨i, List.mem_range.mpr hi, by rw [hc]; rfl⟩

theorem Regular.slots_parent {c p : N} (hp : tree.parent c = some p) : slots c < slots p := by
  obtain ⟨i, hi, hc⟩ := (h.parent_iff c p).mp hp
  have := h.slots_child hi hc
  omega

theorem Regular.slots_inside {root n : N} (hin : Inside tree root n) :
    n = root ∨ slots n < slots root := by
  induction hin with
  | refl => exact .inl rfl
  | tail _ hstep ih =>
    have := h.slots_parent hstep
    rcases ih with rfl | hlt
    · exact .inr this
    · exact .inr (hlt.trans this)

/-- A node that takes the touch is visible and under the point with all of its ancestors. -/
theorem Regular.takes_inside {root n : N} {x y : ℤ} (hin : Inside tree root n)
    (ht : Takes tree x y n) :
    tree.isVisible root = true ∧ containsPoint (tree.bounds root) x y = true := by
  induction hin with
  | refl => exact ⟨ht.visible, ht.contains⟩
  | tail _ hstep ih => exact ⟨h.visible _ _ hstep ih.1, h.bounds _ _ x y hstep ih.2⟩

/-- A node in a subtree is the root or in the subtree of a child. -/
theorem Regular.inside_cases {root n : N} (hin : Inside tree root n) :
    n = root ∨ ∃ c i, i < tree.childCount root ∧ tree.child root i = some c ∧
      Inside tree c n := by
  cases hin with
  | refl => exact .inl rfl
  | tail hin hstep =>
    obtain ⟨i, hi, hc⟩ := (h.parent_iff _ _).mp hstep
    exact .inr ⟨_, i, hi, hc, hin⟩

/-- Branches that split at a node have nothing in common. -/
theorem Regular.not_inside_split {split branch branch' n m : N}
    (hpaint : PaintedAfter tree split branch branch') (hn : Inside tree branch n)
    (hm : Inside tree branch' m) : ¬ Inside tree n m ∧ ¬ Inside tree m n := by
  obtain ⟨i, j, hi, hj, hbi, hbj, horder⟩ := hpaint
  have hb : tree.parent branch = some split := (h.parent_iff _ _).mpr ⟨i, hi, hbi⟩
  have hb' : tree.parent branch' = some split := (h.parent_iff _ _).mpr ⟨j, hj, hbj⟩
  have hne : branch ≠ branch' := by
    rintro rfl
    obtain rfl := h.child_inj _ _ _ _ hi hj hbi hbj
    omega
  have hunique : Relator.RightUnique fun c p => tree.parent c = some p :=
    fun a b c hab hac => Option.some.inj (hab.symm.trans hac)
  -- one child of the node is not inside another
  have hnot : ∀ a b, tree.parent a = some split → tree.parent b = some split → a ≠ b →
      ¬ Inside tree a b := by
    intro a b ha hb hab hin
    obtain rfl | ⟨c, hc, hca⟩ := Relation.ReflTransGen.cases_head_iff.mp hin
    · exact hab rfl
    · obtain rfl := Option.some.inj (hb.symm.trans hc)
      have hlt := h.slots_parent ha
      rcases h.slots_inside hca with rfl | hlt'
      · exact lt_irrefl _ hlt
      · exact lt_asymm hlt hlt'
  have key : ∀ v, Inside tree branch v → Inside tree branch' v → False := by
    intro v hv hv'
    rcases Relation.ReflTransGen.total_of_right_unique hunique hv hv' with hin | hin
    · exact hnot branch' branch hb' hb (Ne.symm hne) hin
    · exact hnot branch branch' hb hb' hne hin
  exact ⟨fun hnm => key m (hnm.trans hn) hm, fun hmn => key n hn (hmn.trans hm)⟩

end

/-! ### The search of a subtree -/

theorem readChildren_eq (node : N) {indices : List ℕ} :
    ∀ {left : ℕ}, indices.length ≤ left → readChildren tree node indices left =
      (indices.filterMap fun i => (tree.child node i).map fun c => (c, drawKey tree c i),
        left - indices.length) := by
  induction indices with
  | nil => exact fun _ => rfl
  | cons i rest ih =>
    intro left hleft
    rw [List.length_cons] at hleft
    have hread : readChild tree node i left = (tree.child node i, left - 1) :=
      if_neg (by omega)
    rw [readChildren, hread, ih (by omega), List.filterMap_cons]
    have hcount : left - 1 - rest.length = left - (rest.length + 1) := by omega
    cases hchild : tree.child node i with
    | none => exact Prod.ext rfl hcount
    | some c => exact Prod.ext rfl hcount

/-- The children in a list of reads count no more than their places. -/
theorem sum_slots_filterMap (slots : N → ℕ) (node : N) (indices : List ℕ) :
    ((indices.filterMap fun i => (tree.child node i).map fun c => (c, drawKey tree c i)).map
        fun entry => slots entry.1).sum =
      (indices.map fun i => (tree.child node i).elim 0 slots).sum := by
  induction indices with
  | nil => rfl
  | cons i rest ih =>
    rw [List.filterMap_cons, List.map_cons, List.sum_cons, ← ih]
    cases tree.child node i with
    | none => exact (Nat.zero_add _).symm
    | some c => rw [Option.map_some, List.map_cons, List.sum_cons]; rfl

/-- What a search of some subtrees says: the node it finds takes the touch, and where it finds none
    there is none; and what it read. -/
structure Searched (slots : N → ℕ) (x y : ℤ) (roots : List N) (left : ℕ)
    (result : Option N × ℕ) : Prop where
  found : ∀ m, result.1 = some m → ∃ n ∈ roots, Inside tree n m ∧ Takes tree x y m
  missed : result.1 = none → ∀ n ∈ roots, ∀ m, Inside tree n m → ¬ Takes tree x y m
  reads : left ≤ result.2 + (roots.map slots).sum

section

variable {tree} {slots : N → ℕ} (h : Regular tree slots)
include h

/-- **The loop of the subtree search**, by induction on its turns. -/
theorem searchStack_spec (x y : ℤ) : ∀ (fuel : ℕ) (stack : List N) (left : ℕ),
    (stack.map slots).sum < left → stack.length + (stack.map slots).sum < fuel →
      Searched tree slots x y stack left (searchStack tree x y fuel stack left) := by
  intro fuel
  induction fuel with
  | zero => exact fun _ _ _ hfuel => absurd hfuel (Nat.not_lt_zero _)
  | succ fuel ih =>
    intro stack left hleft hfuel
    cases stack with
    | nil =>
      rw [searchStack]
      exact ⟨fun _ hm => (by cases hm), fun _ n hn => absurd hn List.not_mem_nil, Nat.le_add_right _ _⟩
    | cons node stack =>
      rw [List.map_cons, List.sum_cons] at hleft hfuel
      rw [List.length_cons] at hfuel
      rw [searchStack]
      split_ifs with hpruned htakes hspent
      · obtain ⟨hfound, hmissed, hreads⟩ := ih stack left (by omega) (by omega)
        refine ⟨fun m hm => ?_, fun hnone n hn m hin ht => ?_, ?_⟩
        · obtain ⟨n, hn, hrest⟩ := hfound m hm
          exact ⟨n, List.mem_cons_of_mem _ hn, hrest⟩
        · rcases List.mem_cons.mp hn with rfl | hn
          · -- what the node does not show, nothing below it shows
            obtain ⟨hv, hc⟩ := h.takes_inside hin ht
            rw [hv, hc] at hpruned
            cases hpruned
          · exact hmissed hnone n hn m hin ht
        · rw [List.map_cons, List.sum_cons]
          omega
      · have hshown : tree.isVisible node = true ∧
            containsPoint (tree.bounds node) x y = true := by
          simpa using hpruned
        refine ⟨fun m hm => ?_, fun hnone => (by cases hnone), Nat.le_add_right _ _⟩
        obtain rfl := Option.some.inj hm
        exact ⟨node, List.mem_cons_self, Relation.ReflTransGen.refl, hshown.1, hshown.2, htakes⟩
      · omega
      · -- the children take the place of the node
        have hcount : (List.range (tree.childCount node)).length = tree.childCount node :=
          List.length_range
        have hslots := h.slots_eq node
        have hleft : (List.range (tree.childCount node)).length ≤ left := by omega
        have hread := readChildren_eq tree node hleft
        obtain ⟨entries, hentries⟩ : ∃ l, ((List.range (tree.childCount node)).filterMap fun i =>
          (tree.child node i).map fun c => (c, drawKey tree c i)) = l := ⟨_, rfl⟩
        have hsum := sum_slots_filterMap tree slots node (List.range (tree.childCount node))
        have hlen : entries.length ≤ tree.childCount node := by
          rw [← hentries]
          exact (List.length_filterMap_le _ _).trans hcount.le
        rw [hentries] at hread hsum
        rw [hread, hcount]
        dsimp only
        obtain ⟨sorted, hsorted⟩ : ∃ l, entries.mergeSort (fun a b => keyLe a.2 b.2) = l := ⟨_, rfl⟩
        have hperm : sorted.Perm entries := hsorted ▸ List.mergeSort_perm _ _
        have hnew : (((sorted.map Prod.fst).reverse ++ stack).map slots).sum +
            tree.childCount node = slots node + (stack.map slots).sum := by
          rw [List.map_append, List.sum_append, List.map_reverse, List.sum_reverse, List.map_map]
          have hsorted' : (sorted.map (slots ∘ Prod.fst)).sum =
              (entries.map fun entry => slots entry.1).sum := (hperm.map _).sum_eq
          omega
        have hnewlen : ((sorted.map Prod.fst).reverse ++ stack).length ≤
            tree.childCount node + stack.length := by
          rw [List.length_append, List.length_reverse, List.length_map, hperm.length_eq]
          omega
        rw [hsorted]
        obtain ⟨hfound, hmissed, hreads⟩ := ih ((sorted.map Prod.fst).reverse ++ stack)
          (left - tree.childCount node) (by omega) (by omega)
        have hchild : ∀ c, c ∈ (sorted.map Prod.fst).reverse ↔
            ∃ i, i < tree.childCount node ∧ tree.child node i = some c := by
          intro c
          rw [List.mem_reverse, List.mem_map]
          constructor
          · rintro ⟨entry, hentry, rfl⟩
            rw [hperm.mem_iff, ← hentries, List.mem_filterMap] at hentry
            obtain ⟨i, hi, hmap⟩ := hentry
            obtain ⟨c, hc, rfl⟩ := Option.map_eq_some_iff.mp hmap
            exact ⟨i, List.mem_range.mp hi, hc⟩
          · rintro ⟨i, hi, hc⟩
            refine ⟨(c, drawKey tree c i), ?_, rfl⟩
            rw [hperm.mem_iff, ← hentries, List.mem_filterMap]
            exact ⟨i, List.mem_range.mpr hi, by rw [hc]; rfl⟩
        refine ⟨fun m hm => ?_, fun hnone n hn m hin ht => ?_, ?_⟩
        · obtain ⟨n, hn, hin, ht⟩ := hfound m hm
          rcases List.mem_append.mp hn with hn | hn
          · have hstep := (h.parent_iff n node).mpr ((hchild n).mp hn)
            exact ⟨node, List.mem_cons_self, hin.tail hstep, ht⟩
          · exact ⟨n, List.mem_cons_of_mem _ hn, hin, ht⟩
        · rcases List.mem_cons.mp hn with rfl | hn
          · rcases h.inside_cases hin with rfl | ⟨c, i, hi, hc, hin⟩
            · exact htakes ht.touches
            · exact hmissed hnone c (List.mem_append_left _ ((hchild c).mpr ⟨i, hi, hc⟩)) m hin ht
          · exact hmissed hnone n (List.mem_append_right _ hn) m hin ht
        · rw [List.map_cons, List.sum_cons]
          omega

theorem searchSubtree_spec (x y : ℤ) {root : N} {left : ℕ} (hleft : slots root < left) :
    Searched tree slots x y [root] left (searchSubtree tree root x y left) := by
  apply searchStack_spec h
  · simpa using hleft
  · simp only [List.length_singleton, List.map_singleton, List.sum_singleton]
    omega

theorem searchSiblings_spec (x y : ℤ) : ∀ (roots : List N) (left : ℕ),
    (roots.map slots).sum < left →
      Searched tree slots x y roots left (searchSiblings tree x y roots left) := by
  intro roots
  induction roots with
  | nil =>
    exact fun left _ =>
      ⟨fun _ hm => (by cases hm), fun _ n hn => absurd hn List.not_mem_nil, Nat.le_add_right _ _⟩
  | cons root rest ih =>
    intro left hleft
    rw [List.map_cons, List.sum_cons] at hleft
    have hroot : slots root < left := by omega
    obtain ⟨hfound, hmissed, hreads⟩ := searchSubtree_spec h x y hroot
    rw [List.map_singleton, List.sum_singleton] at hreads
    rw [searchSiblings]
    split_ifs with hsome
    · refine ⟨fun m hm => ?_, fun hnone => ?_, ?_⟩
      · obtain ⟨n, hn, hrest⟩ := hfound m hm
        exact ⟨n, List.mem_cons.mpr (.inl (List.mem_singleton.mp hn)), hrest⟩
      · rw [hnone] at hsome
        cases hsome
      · rw [List.map_cons, List.sum_cons]
        omega
    · have hnone : (searchSubtree tree root x y left).1 = none := by simpa using hsome
      obtain ⟨hfound', hmissed', hreads'⟩ := ih (searchSubtree tree root x y left).2 (by omega)
      refine ⟨fun m hm => ?_, fun hnone' n hn => ?_, ?_⟩
      · obtain ⟨n, hn, hrest⟩ := hfound' m hm
        exact ⟨n, List.mem_cons_of_mem _ hn, hrest⟩
      · rcases List.mem_cons.mp hn with rfl | hn
        · exact hmissed hnone n (List.mem_singleton_self n)
        · exact hmissed' hnone' n hn
      · rw [List.map_cons, List.sum_cons]
        omega

end

/-! ### The search of the levels -/

theorem keyGt_iff {a b : ℤ × ℕ} :
    keyGt a b = true ↔ b.1 < a.1 ∨ b.1 = a.1 ∧ b.2 < a.2 := by
  unfold keyGt keyLe
  simp only [Bool.not_eq_true', Bool.or_eq_false_iff, Bool.and_eq_false_iff, decide_eq_false_iff_not,
    beq_eq_false_iff_ne]
  omega

/-- The sum over all places is the sum over the others and the one. -/
theorem sum_filter_ne {n k : ℕ} (hk : k < n) (f : ℕ → ℕ) :
    (((List.range n).filter (· ≠ k)).map f).sum + f k = ((List.range n).map f).sum := by
  have herase : (List.range n).filter (· ≠ k) = (List.range n).erase k := by
    rw [List.nodup_range.erase_eq_filter]
    exact List.filter_congr fun i _ => by by_cases hi : i = k <;> simp [hi]
  rw [herase, Nat.add_comm]
  exact List.sum_map_erase f (List.mem_range.mpr hk)

/-- The branch is where the level says. -/
structure Level.Ok (level : Level N) : Prop where
  index_lt : level.branchIndex < tree.childCount level.node
  child_eq : tree.child level.node level.branchIndex = some level.branch

/-- The sibling at a place is searched at the level. -/
structure Level.Later (level : Level N) (i : ℕ) (sibling : N) : Prop where
  index_lt : i < tree.childCount level.node
  index_ne : i ≠ level.branchIndex
  child_eq : tree.child level.node i = some sibling
  painted : tree.drawingOrder level.branch < tree.drawingOrder sibling ∨
    tree.drawingOrder level.branch = tree.drawingOrder sibling ∧ level.branchIndex < i
  not_barrier : isModalBarrierBehind tree sibling (drawKey tree sibling i)
    (drawKey tree level.branch level.branchIndex) = false

/-- The reads that a level may cost. -/
def Level.cost (slots : N → ℕ) (level : Level N) : ℕ :=
  slots level.node - slots level.branch - 1

section

variable {tree} {slots : N → ℕ} (h : Regular tree slots)
include h

/-- The reads of a level: its other children, and what is below them. -/
theorem Level.cost_eq {level : Level N} (hok : level.Ok tree) :
    level.cost slots = (tree.childCount level.node - 1) +
      (((List.range (tree.childCount level.node)).filter (· ≠ level.branchIndex)).map fun i =>
        (tree.child level.node i).elim 0 slots).sum := by
  have hsum := sum_filter_ne hok.index_lt fun i => (tree.child level.node i).elim 0 slots
  have hslots := h.slots_eq level.node
  have hindex := hok.index_lt
  rw [hok.child_eq, Option.elim_some] at hsum
  unfold Level.cost
  omega

theorem laterSiblings_spec {level : Level N} (hok : level.Ok tree) {left : ℕ}
    (hleft : level.cost slots < left) :
    (∀ s, s ∈ (laterSiblings tree level left).1 ↔ ∃ i, level.Later tree i s) ∧
      ((laterSiblings tree level left).1.map slots).sum < (laterSiblings tree level left).2 ∧
      left + ((laterSiblings tree level left).1.map slots).sum ≤
        (laterSiblings tree level left).2 + level.cost slots := by
  have hcost := level.cost_eq h hok
  have hindex := hok.index_lt
  obtain ⟨indices, hindices⟩ : ∃ l, (List.range (tree.childCount level.node)).filter
    (· ≠ level.branchIndex) = l := ⟨_, rfl⟩
  have hlen : indices.length = tree.childCount level.node - 1 := by
    have hones := sum_filter_ne hok.index_lt fun _ => 1
    rw [hindices] at hones
    simp only [List.map_const', List.sum_replicate_nat, List.length_range] at hones
    omega
  have hindices' : indices.length ≤ left := by omega
  have hread := readChildren_eq tree level.node hindices'
  have hsum := sum_slots_filterMap tree slots level.node indices
  obtain ⟨entries, hentries⟩ : ∃ l, (indices.filterMap fun i =>
    (tree.child level.node i).map fun c => (c, drawKey tree c i)) = l := ⟨_, rfl⟩
  rw [hentries] at hread hsum
  obtain ⟨later, hlater⟩ : ∃ l, (entries.filter fun entry =>
    keyGt entry.2 (drawKey tree level.branch level.branchIndex) &&
      !isModalBarrierBehind tree entry.1 entry.2
        (drawKey tree level.branch level.branchIndex)) = l := ⟨_, rfl⟩
  have hresult : laterSiblings tree level left =
      ((later.mergeSort fun a b => keyLe b.2 a.2).map Prod.fst, left - indices.length) := by
    unfold laterSiblings
    dsimp only
    rw [hindices, hread, hlater]
  have hperm := List.mergeSort_perm later fun a b => keyLe b.2 a.2
  have hle : (((later.mergeSort fun a b => keyLe b.2 a.2).map Prod.fst).map slots).sum ≤
      (indices.map fun i => (tree.child level.node i).elim 0 slots).sum := by
    have hsub : later.Sublist entries := hlater ▸ List.filter_sublist
    rw [List.map_map, ← hsum]
    exact (hperm.map _).sum_eq.le.trans
      ((hsub.map (slots ∘ Prod.fst)).sum_le_sum fun _ _ => Nat.zero_le _)
  rw [hindices] at hcost
  rw [hresult]
  dsimp only
  refine ⟨fun s => ?_, by omega, by omega⟩
  rw [List.mem_map]
  constructor
  · rintro ⟨entry, hentry, rfl⟩
    rw [hperm.mem_iff, ← hlater, List.mem_filter, ← hentries, List.mem_filterMap] at hentry
    obtain ⟨⟨i, hi, hmap⟩, hkey⟩ := hentry
    obtain ⟨c, hc, rfl⟩ := Option.map_eq_some_iff.mp hmap
    rw [← hindices, List.mem_filter, List.mem_range, decide_eq_true_eq] at hi
    rw [Bool.and_eq_true, keyGt_iff, Bool.not_eq_true'] at hkey
    exact ⟨i, hi.1, hi.2, hc, hkey.1, hkey.2⟩
  · rintro ⟨i, hi⟩
    refine ⟨(s, drawKey tree s i), ?_, rfl⟩
    rw [hperm.mem_iff, ← hlater, List.mem_filter, ← hentries, List.mem_filterMap]
    refine ⟨⟨i, ?_, by rw [hi.child_eq]; rfl⟩, ?_⟩
    · rw [← hindices, List.mem_filter, List.mem_range, decide_eq_true_eq]
      exact ⟨hi.index_lt, hi.index_ne⟩
    · rw [Bool.and_eq_true, keyGt_iff, Bool.not_eq_true']
      exact ⟨hi.painted, hi.not_barrier⟩

/-- **The search of the levels**, one after the other. -/
theorem searchLevels_spec (x y : ℤ) : ∀ (levels : List (Level N)) (left : ℕ),
    (∀ level ∈ levels, level.Ok tree) → (levels.map (Level.cost slots)).sum < left →
      (∀ m, searchLevels tree x y levels left = some m → ∃ level ∈ levels, ∃ i s,
        level.Later tree i s ∧ Inside tree s m ∧ Takes tree x y m) ∧
      (searchLevels tree x y levels left = none → ∀ level ∈ levels, ∀ i s m,
        level.Later tree i s → Inside tree s m → ¬ Takes tree x y m) := by
  intro levels
  induction levels with
  | nil =>
    exact fun left _ _ => ⟨fun _ hm => (by cases hm), fun _ l hl => absurd hl List.not_mem_nil⟩
  | cons level rest ih =>
    intro left hok hleft
    rw [List.forall_mem_cons] at hok
    rw [List.map_cons, List.sum_cons] at hleft
    have hlevel : level.cost slots < left := by omega
    obtain ⟨hmem, hlt, hreads⟩ := laterSiblings_spec h hok.1 hlevel
    obtain ⟨later, hlater⟩ : ∃ r, laterSiblings tree level left = r := ⟨_, rfl⟩
    rw [hlater] at hmem hlt hreads
    obtain ⟨hfound, hmissed, hreads'⟩ := searchSiblings_spec h x y later.1 later.2 hlt
    obtain ⟨found, hfound'⟩ : ∃ r, searchSiblings tree x y later.1 later.2 = r := ⟨_, rfl⟩
    rw [hfound'] at hfound hmissed hreads'
    have hleft' : (rest.map (Level.cost slots)).sum < found.2 := by omega
    rw [searchLevels, hlater, hfound']
    split_ifs with hsome hspent
    · refine ⟨fun m hm => ?_, fun hnone => ?_⟩
      · obtain ⟨s, hs, hrest⟩ := hfound m hm
        obtain ⟨i, hi⟩ := (hmem s).mp hs
        exact ⟨level, List.mem_cons_self, i, s, hi, hrest⟩
      · rw [hnone] at hsome
        cases hsome
    · omega
    · have hnone : found.1 = none := by simpa using hsome
      obtain ⟨hfound'', hmissed''⟩ := ih found.2 hok.2 hleft'
      refine ⟨fun m hm => ?_, fun hnone' l hl i s m hsibling hin => ?_⟩
      · obtain ⟨l, hl, hrest⟩ := hfound'' m hm
        exact ⟨l, List.mem_cons_of_mem _ hl, hrest⟩
      · rcases List.mem_cons.mp hl with rfl | hl
        · exact hmissed hnone s ((hmem s).mpr ⟨i, hsibling⟩) m hin
        · exact hmissed'' hnone' l hl i s m hsibling hin

end

/-! ### The way up -/

/-- From a node to an ancestor some levels up, with the reads that find the way. -/
inductive Climb : N → ℕ → ℕ → N → Prop
  | start (n : N) : Climb n 0 0 n
  | up {n p top : N} {i reads depth : ℕ} (hparent : tree.parent n = some p)
    (hi : i < tree.childCount p) (hchild : tree.child p i = some n)
    (hclimb : Climb p reads depth top) : Climb n (i + 1 + reads) (depth + 1) top

/-- **The tree fits the budgets.** No way up from the target needs more reads than there are, and
    the children beside the way, with what is below them, do not use up theirs: they are the slots
    of the ancestor without those of the target and without one a level. -/
def Fits (slots : N → ℕ) (target : N) : Prop :=
  ∀ reads depth top, Climb tree target reads depth top →
    reads ≤ MAX_PATH_NODES_VISITED ∧ slots top < slots target + depth + MAX_NODES_VISITED

/-- The levels lead from the node to the root. -/
def IsPath : N → List (Level N) → Prop
  | n, [] => tree.parent n = none
  | n, level :: rest =>
    tree.parent n = some level.node ∧ level.branch = n ∧ level.Ok tree ∧ IsPath level.node rest

section

variable {tree} {slots : N → ℕ} (h : Regular tree slots)
include h

theorem indexOf_spec {level node : N} {k : ℕ} (hchild : tree.child level k = some node) :
    ∀ (more i left : ℕ), i ≤ k → k < i + more → i + more ≤ tree.childCount level →
      k + 1 ≤ i + left → indexOf tree level node i more left = (some k, left - (k + 1 - i)) := by
  intro more
  induction more with
  | zero =>
    intro i left hik hk
    omega
  | succ more ih =>
    intro i left hik hk hcount hleft
    have hread : readChild tree level i left = (tree.child level i, left - 1) := if_neg (by omega)
    rw [indexOf, hread]
    dsimp only
    by_cases hi : i = k
    · subst hi
      rw [hchild, Option.any_some, if_pos ((h.sameAs_iff node node).mpr rfl)]
      congr 1
      omega
    · -- another child is not the same node
      have hother : (tree.child level i).any (tree.sameAs · node) = false := by
        cases hc : tree.child level i with
        | none => rfl
        | some c =>
          rw [Option.any_some, Bool.eq_false_iff]
          intro hsame
          obtain rfl := (h.sameAs_iff c node).mp hsame
          exact hi (h.child_inj _ _ _ _ (by omega) (by omega) hc hchild)
      rw [hother, if_neg Bool.false_ne_true, ih (i + 1) (left - 1) (by omega) (by omega) (by omega)
        (by omega)]
      congr 1
      omega

theorem levelsFrom_isPath : ∀ (fuel : ℕ) (node : N) (left : ℕ), left < fuel →
    (∀ reads depth top, Climb tree node reads depth top → reads ≤ left) →
      IsPath tree node (levelsFrom tree node fuel left) := by
  intro fuel
  induction fuel with
  | zero => exact fun _ _ hfuel => absurd hfuel (Nat.not_lt_zero _)
  | succ fuel ih =>
    intro node left hfuel hreads
    rw [levelsFrom]
    cases hparent : tree.parent node with
    | none => exact hparent
    | some p =>
      obtain ⟨k, hk, hchild⟩ := (h.parent_iff node p).mp hparent
      have hleft : k + 1 ≤ left := hreads _ _ _ (.up hparent hk hchild (.start p))
      rw [Option.elim_some, indexOf_spec h hchild _ _ _ (Nat.zero_le k) (by omega) (by omega)
        (by omega)]
      refine ⟨hparent, rfl, ⟨hk, hchild⟩, ih p _ (by omega) fun reads depth top hclimb => ?_⟩
      have := hreads _ _ _ (.up hparent hk hchild hclimb)
      omega

omit h in
theorem IsPath.ok {node : N} {levels : List (Level N)} (hpath : IsPath tree node levels) :
    ∀ level ∈ levels, level.Ok tree ∧ Inside tree level.branch node := by
  induction levels generalizing node with
  | nil => exact fun l hl => absurd hl List.not_mem_nil
  | cons level rest ih =>
    obtain ⟨hparent, hbranch, hok, hrest⟩ := hpath
    rw [List.forall_mem_cons]
    refine ⟨⟨hok, hbranch ▸ Relation.ReflTransGen.refl⟩, fun l hl => ?_⟩
    obtain ⟨hl, hin⟩ := ih hrest l hl
    exact ⟨hl, hin.head hparent⟩

/-- A path is a climb, and what its levels cost is what its end has beside the way. -/
theorem IsPath.climb {node : N} {levels : List (Level N)} (hpath : IsPath tree node levels) :
    ∃ reads top, Climb tree node reads levels.length top ∧
      slots top = slots node + levels.length + (levels.map (Level.cost slots)).sum := by
  induction levels generalizing node with
  | nil => exact ⟨0, node, .start node, rfl⟩
  | cons level rest ih =>
    obtain ⟨hparent, hbranch, hok, hrest⟩ := hpath
    obtain ⟨reads, top, hclimb, hslots⟩ := ih hrest
    subst hbranch
    refine ⟨_, top, .up hparent hok.index_lt hok.child_eq hclimb, ?_⟩
    have hlt := h.slots_parent hparent
    rw [List.map_cons, List.sum_cons, List.length_cons]
    unfold Level.cost at *
    omega

omit h in
/-- Every ancestor's branch is on the path. -/
theorem IsPath.exists_level {node : N} {levels : List (Level N)} (hpath : IsPath tree node levels)
    {split branch : N} (hsplit : tree.parent branch = some split) (hin : Inside tree branch node) :
    ∃ level ∈ levels, level.node = split ∧ level.branch = branch := by
  induction levels generalizing node with
  | nil =>
    obtain rfl | ⟨c, hc, -⟩ := Relation.ReflTransGen.cases_head_iff.mp hin
    · rw [show tree.parent node = none from hpath] at hsplit
      cases hsplit
    · rw [show tree.parent node = none from hpath] at hc
      cases hc
  | cons level rest ih =>
    obtain ⟨hparent, hbranch, -, hrest⟩ := hpath
    obtain rfl | ⟨c, hc, hin'⟩ := Relation.ReflTransGen.cases_head_iff.mp hin
    · exact ⟨level, List.mem_cons_self, Option.some.inj (hparent.symm.trans hsplit), hbranch⟩
    · obtain rfl := Option.some.inj (hparent.symm.trans hc)
      obtain ⟨l, hl, hrest⟩ := ih hrest hin'
      exact ⟨l, List.mem_cons_of_mem _ hl, hrest⟩

end

/-- No sibling beside the way up is Flutter's modal barrier. -/
def NoBarrier (target : N) : Prop :=
  ∀ split branch sibling, tree.parent branch = some split → tree.parent sibling = some split →
    sibling ≠ branch → Inside tree branch target →
      ¬ (tree.drawingOrder sibling = 0 ∧ tree.drawingOrder branch = 0 ∧
        tree.offersDismiss sibling = true ∧ tree.childCount sibling = 0)

/-- **The search is exact.** -/
theorem findCoverInWindow_exact {slots : N → ℕ} {target : N} (h : Regular tree slots)
    (hfits : Fits tree slots target) (hbarrier : NoBarrier tree target) (x y : ℤ) :
    ((findCoverInWindow tree target x y).isSome ↔ ∃ node, Covers tree target x y node) ∧
      ∀ node, findCoverInWindow tree target x y = some node → Covers tree target x y node := by
  have hpath : IsPath tree target (levels tree target) :=
    levelsFrom_isPath h _ _ _ (Nat.lt_succ_self _) fun reads depth top hclimb =>
      (hfits reads depth top hclimb).1
  obtain ⟨reads, top, hclimb, hslots⟩ := hpath.climb h
  have hcost : (((levels tree target).reverse).map (Level.cost slots)).sum < MAX_NODES_VISITED := by
    have := (hfits _ _ _ hclimb).2
    rw [List.map_reverse, List.sum_reverse]
    omega
  obtain ⟨hfound, hmissed⟩ := searchLevels_spec h x y (levels tree target).reverse
    MAX_NODES_VISITED (fun level hl => (hpath.ok level (List.mem_reverse.mp hl)).1) hcost
  have hcovers : ∀ node, findCoverInWindow tree target x y = some node →
      Covers tree target x y node := by
    intro node hnode
    obtain ⟨level, hl, i, s, hlater, hin, ht⟩ := hfound node hnode
    obtain ⟨hok, hbranch⟩ := hpath.ok level (List.mem_reverse.mp hl)
    have hpaint : PaintedAfter tree level.node level.branch s :=
      ⟨level.branchIndex, i, hok.index_lt, hlater.index_lt, hok.child_eq, hlater.child_eq,
        hlater.painted⟩
    obtain ⟨hnot, hnot'⟩ := h.not_inside_split hpaint hbranch hin
    exact ⟨ht, hnot, hnot', level.node, level.branch, s, hpaint, hbranch, hin⟩
  refine ⟨⟨fun hsome => ?_, ?_⟩, hcovers⟩
  · obtain ⟨node, hnode⟩ := Option.isSome_iff_exists.mp hsome
    exact ⟨node, hcovers node hnode⟩
  · rintro ⟨node, ht, -, -, split, branch, s, ⟨i, j, hi, hj, hbi, hsj, horder⟩, hbranch, hin⟩
    rw [Option.isSome_iff_ne_none]
    intro hnone
    have hb : tree.parent branch = some split := (h.parent_iff _ _).mpr ⟨i, hi, hbi⟩
    have hs : tree.parent s = some split := (h.parent_iff _ _).mpr ⟨j, hj, hsj⟩
    obtain ⟨level, hl, rfl, rfl⟩ := hpath.exists_level hb hbranch
    obtain ⟨hok, -⟩ := hpath.ok level hl
    obtain rfl := h.child_inj _ _ _ _ hi hok.index_lt hbi hok.child_eq
    have hne : j ≠ level.branchIndex := by
      rintro rfl
      obtain rfl : s = level.branch := Option.some.inj (hsj.symm.trans hok.child_eq)
      omega
    have hsne : s ≠ level.branch := by
      rintro rfl
      exact hne (h.child_inj _ _ _ _ hj hok.index_lt hsj hok.child_eq)
    have hno : isModalBarrierBehind tree s (drawKey tree s j)
        (drawKey tree level.branch level.branchIndex) = false := by
      rw [Bool.eq_false_iff]
      intro hmodal
      simp only [isModalBarrierBehind, drawKey, Bool.and_eq_true, beq_iff_eq] at hmodal
      exact hbarrier level.node level.branch s hb hs hsne hbranch
        ⟨hmodal.1.1.1, hmodal.1.1.2, hmodal.1.2, hmodal.2⟩
    exact hmissed hnone level (List.mem_reverse.mpr hl) j s node
      ⟨hj, hne, hsj, horder, hno⟩ hin ht

/-- A screen with a button and an overlay that is listed behind it. -/
def overlayTree : HitTree (Fin 3) where
  bounds _ := ⟨0, 0, 100, 200⟩
  drawingOrder _ := 0
  isVisible _ := true
  takesTouches n := n ≠ 0
  offersDismiss _ := false
  parent n := if n = 0 then none else some 0
  childCount n := if n = 0 then 2 else 0
  child n i := if n = 0 then if i = 0 then some 1 else some 2 else none
  sameAs a b := a = b
  describe _ := "button \"Overlay\""

def overlaySlots (n : Fin 3) : ℕ := if n = 0 then 2 else 0

theorem overlayTree_regular : Regular overlayTree overlaySlots where
  sameAs_iff a b := decide_eq_true_iff
  parent_iff := by decide
  child_inj p c i j hi hj hci hcj := by
    unfold overlayTree at hi hj hci hcj
    dsimp only at hi hj hci hcj
    split_ifs at * <;> simp_all <;> omega
  slots_eq := by decide
  visible _ _ _ _ := rfl
  bounds _ _ _ _ _ h := h

theorem overlayTree_fits : Fits overlayTree overlaySlots 1 := by
  intro reads depth top hclimb
  cases hclimb with
  | start => decide
  | up hparent hi hchild hclimb =>
    obtain rfl := Option.some.inj hparent
    cases hclimb with
    | start =>
      have hi' : _ < 2 := hi
      exact ⟨by unfold MAX_PATH_NODES_VISITED; omega, by decide⟩
    | up hparent _ _ _ => cases hparent

theorem findCoverInWindow_exact_overlay :
    ((findCoverInWindow overlayTree 1 50 100).isSome ↔
      ∃ node, Covers overlayTree 1 50 100 node) ∧
    ∀ node, findCoverInWindow overlayTree 1 50 100 = some node →
      Covers overlayTree 1 50 100 node :=
  findCoverInWindow_exact overlayTree overlayTree_regular overlayTree_fits
    (fun _ _ _ _ _ _ _ h => absurd h.2.2.1 Bool.false_ne_true) 50 100

end Tapsmith.Agent.Occlusion
