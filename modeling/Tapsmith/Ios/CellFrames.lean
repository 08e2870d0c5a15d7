import Tapsmith.Ios.Occlusion

namespace Tapsmith.Ios.CellFrames

open Lib Tapsmith.Ios.Occlusion

/-!
# Rows of a table with no loaded cell

`CellFrames.swift`: the contents of an unloaded row report a placeholder on screen and are placed
at their cell. The finders rewrite the snapshot's tree, the occlusion check its flattened nodes.

* `Context` — what a walk knows of a node's surroundings;
* `placeDetachedNodes` — over the tree; `init`, `ofSnapshot` — over the nodes in pre-order;
* `placeNodes_walk` — the two compute the same frames;
* `contextAt_eq` — what a context says of the nodes around;
* `placed_everywhere` — only the contents of unloaded rows are moved.
-/

/-! ### Geometry -/

section Geometry

/-- A `CGRect` with its special values. -/
inductive Extent (K : Type)
  | null
  | rect (r : Rect K)
  | infinite
deriving DecidableEq

variable {K : Type} [Field K] [LinearOrder K]

namespace Extent

/-- `CGRect.intersection` -/
def intersection : Extent K → Extent K → Extent K
  | .infinite, e => e
  | e, .infinite => e
  | .rect r, .rect s => (Occlusion.intersection r s).elim .null .rect
  | _, _ => .null

def hasArea : Extent K → Bool
  | .null => false
  | .rect r => 0 < width r && 0 < height r
  | .infinite => true

def overlaps (a b : Extent K) : Bool := hasArea (a.intersection b)

variable [IsStrictOrderedRing K]

theorem hasArea_rect {r : Rect K} : (rect r).hasArea = true ↔ r.Proper := by
  rw [hasArea, Bool.and_eq_true, decide_eq_true_iff, decide_eq_true_iff, width, height, sub_pos,
    sub_pos]
  rfl

theorem overlaps_rect {r s : Rect K} : (rect r).overlaps (rect s) = true ↔ (r.meet s).Proper := by
  rw [overlaps, intersection, Occlusion.intersection]
  split_ifs with hordered
  · exact hasArea_rect
  · refine iff_of_false Bool.false_ne_true fun hproper => hordered ?_
    exact ⟨hproper.1.le, hproper.2.le⟩

/-- What has area overlaps itself. -/
theorem overlaps_self {r : Rect K} (h : (rect r).hasArea = true) :
    (rect r).overlaps (rect r) = true := by
  rw [overlaps_rect, Rect.meet, max_self, max_self, min_self, min_self]
  exact hasArea_rect.mp h

/-- What overlaps a part overlaps the whole. -/
theorem overlaps_of_intersection {r s : Rect K} {viewport : Extent K}
    (h : (rect r).overlaps (viewport.intersection (rect s)) = true) :
    (rect r).overlaps viewport = true := by
  cases viewport with
  | null => exact h
  | infinite =>
    rw [intersection, overlaps_rect] at h
    exact hasArea_rect.mpr (Rect.meet_within_left.proper h)
  | rect t =>
    rw [intersection, Occlusion.intersection] at h
    split_ifs at h with hordered
    · have hpart : Rect.Within (r.meet (t.meet s)) (r.meet t) :=
        Rect.within_meet_iff.mpr ⟨Rect.meet_within_left,
          Rect.meet_within_right.trans Rect.meet_within_left⟩
      exact overlaps_rect.mpr (hpart.proper (overlaps_rect.mp h))
    · exact absurd h Bool.false_ne_true

end Extent

end Geometry

/-! ### The walk -/

section Walk

variable {K : Type} [Field K] [LinearOrder K]

/-- What the walk knows about a node's surroundings. -/
structure Context (K : Type) where
  /-- the area that the scroll views around the node show -/
  viewport : Extent K
  /-- the frame of the nearest cell around the node, when that cell is outside `viewport` -/
  offScreenCell : Option (Rect K)
deriving DecidableEq

/-- `Context(viewport:)`. -/
def Context.ofViewport (viewport : Extent K) : Context K := ⟨viewport, none⟩

def scrollerTypes : List ElementType := [.scrollView, .table, .collectionView]

/-- The frame to report for a node whose snapshot frame is `frame`. -/
def effectiveFrame (frame : Rect K) (context : Context K) : Rect K :=
  (context.offScreenCell.filter fun cell =>
    (Extent.rect frame).hasArea && !(Extent.rect frame).overlaps (.rect cell)).getD frame

/-- The context for the children of a node whose effective frame is `frame`. -/
def childContext (type : ElementType) (frame : Rect K) (context : Context K) : Context K :=
  let viewport := if type ∈ scrollerTypes then context.viewport.intersection (.rect frame)
    else context.viewport
  let offScreenCell := if type = .cell then
      if (Extent.rect frame).hasArea && !(Extent.rect frame).overlaps viewport then some frame
      else none
    else context.offScreenCell
  ⟨viewport, offScreenCell⟩

/-- A node of the snapshot, with what the walks read of it. -/
inductive Snapshot (K : Type)
  | node (elementType : ElementType) (label identifier : String) (frame : Rect K)
      (children : List (Snapshot K))

def Snapshot.frame : Snapshot K → Rect K
  | .node _ _ _ frame _ => frame

/-! ### Rewriting the tree -/

mutual

/-- The tree with the frames to report, and whether anything in it changed. -/
def place : Snapshot K → Context K → Snapshot K × Bool
  | .node type label identifier frame children, context =>
    let effective := effectiveFrame frame context
    let inner := childContext type effective context
    let placed := placeAll children inner
    (.node type label identifier effective (if placed.2 then placed.1 else children),
      decide (effective ≠ frame) || placed.2)

def placeAll : List (Snapshot K) → Context K → List (Snapshot K) × Bool
  | [], _ => ([], false)
  | child :: rest, context =>
    let placed := place child context
    let others := placeAll rest context
    (placed.1 :: others.1, placed.2 || others.2)

end

def placeDetachedNodes (root : Snapshot K) : Snapshot K :=
  let viewport := if (Extent.rect root.frame).hasArea then Extent.rect root.frame else .infinite
  (place root (.ofViewport viewport)).1

/-! ### The nodes in pre-order -/

mutual

/-- The nodes of a subtree whose root has the given index. -/
def walk : Snapshot K → Option ℕ → Option ℕ → ℕ → List (Node K)
  | .node type label identifier frame children, window, parent, index =>
    let ownWindow := if type = .window ∧ window = none then some index else window
    let below := walkAll children ownWindow (some index) (index + 1)
    ⟨type, label, identifier, frame, index + 1 + below.length, parent,
      if type = .application then none else ownWindow⟩ :: below

def walkAll : List (Snapshot K) → Option ℕ → Option ℕ → ℕ → List (Node K)
  | [], _, _, _ => []
  | child :: rest, window, parent, index =>
    let nodes := walk child window parent index
    nodes ++ walkAll rest window parent (index + nodes.length)

end

/-- Place one node behind those placed: its frame, and the context of its children. -/
def placeNode (screen : Rect K) (placed : List (Rect K × Context K)) (node : Node K) :
    List (Rect K × Context K) :=
  let context := (node.parent.bind fun p => placed[p]?.map Prod.snd).getD
    (.ofViewport (.rect screen))
  let frame := effectiveFrame node.frame context
  placed ++ [(frame, childContext node.elementType frame context)]

def placeNodes (screen : Rect K) (nodes : List (Node K)) : List (Rect K × Context K) :=
  nodes.foldl (placeNode screen) []

end Walk

section Parents

variable {K : Type}

/-- Every node's parent comes before it. -/
def ParentsBefore (nodes : List (Node K)) : Prop :=
  ∀ (i : ℕ) (node : Node K) (p : ℕ), nodes[i]? = some node → node.parent = some p → p < i

mutual

/-- A node of a walk has the walk's parent, or one that the walk has met. -/
theorem parent_walk (s : Snapshot K) (window parent : Option ℕ) (index i p : ℕ) (node : Node K)
    (hnode : (walk s window parent index)[i]? = some node) (hparent : node.parent = some p) :
    parent = some p ∨ index ≤ p ∧ p < index + i := by
  cases s with
  | node type label identifier frame children =>
    rw [walk] at hnode
    cases i with
    | zero =>
      rw [List.getElem?_cons_zero] at hnode
      obtain rfl := Option.some.inj hnode
      exact .inl hparent
    | succ i =>
      rw [List.getElem?_cons_succ] at hnode
      rcases parent_walkAll children _ _ _ i p node hnode hparent with hp | hp
      · obtain rfl := Option.some.inj hp
        exact .inr (by omega)
      · exact .inr (by omega)

theorem parent_walkAll (rest : List (Snapshot K)) (window parent : Option ℕ) (index i p : ℕ)
    (node : Node K) (hnode : (walkAll rest window parent index)[i]? = some node)
    (hparent : node.parent = some p) : parent = some p ∨ index ≤ p ∧ p < index + i := by
  cases rest with
  | nil =>
    rw [walkAll, List.getElem?_nil] at hnode
    cases hnode
  | cons child rest =>
    rw [walkAll, List.getElem?_append] at hnode
    split_ifs at hnode with hi
    · exact parent_walk child window parent index i p node hnode hparent
    · rcases parent_walkAll rest _ _ _ _ p node hnode hparent with hp | hp
      · exact .inl hp
      · exact .inr (by omega)

end

theorem parentsBefore_walk (s : Snapshot K) : ParentsBefore (walk s none none 0) := by
  intro i node p hnode hparent
  rcases parent_walk s none none 0 i p node hnode hparent with hp | hp
  · cases hp
  · omega

end Parents

section Init

variable {K : Type} [Field K] [LinearOrder K]

/-- A node with the frame to report. -/
def withReport (node : Node K) (report : Rect K × Context K) : Node K :=
  { node with frame := report.1 }

theorem length_placeNodes_from (screen : Rect K) (nodes : List (Node K))
    (done : List (Rect K × Context K)) :
    (nodes.foldl (placeNode screen) done).length = done.length + nodes.length := by
  induction nodes generalizing done with
  | nil => rfl
  | cons node nodes ih =>
    rw [List.foldl_cons, ih, placeNode, List.length_append, List.length_cons, List.length_cons,
      List.length_nil]
    omega

theorem length_placeNodes (screen : Rect K) (nodes : List (Node K)) :
    (placeNodes screen nodes).length = nodes.length := by
  rw [placeNodes, length_placeNodes_from, List.length_nil, Nat.zero_add]

/-- `init(nodes:screen:)`. -/
def init (nodes : List (Node K)) (screen : Rect K) (hparents : ParentsBefore nodes) :
    Analyzer K where
  nodes := List.zipWith withReport nodes (placeNodes screen nodes)
  screen := screen
  snapshotFrames := nodes.map Node.frame
  parent_lt i node p hnode hparent := by
    obtain ⟨raw, report, hraw, -, rfl⟩ := List.getElem?_zipWith_eq_some.mp hnode
    exact hparents i raw p hraw hparent
  frames_length := by
    rw [List.length_map, List.length_zipWith, length_placeNodes, min_self]

/-- `init(snapshot:screenSize:)`. -/
def ofSnapshot (snapshot : Snapshot K) (screen : Rect K) : Analyzer K :=
  init (walk snapshot none none 0) screen (parentsBefore_walk snapshot)

/-! ### One pass over the tree and one over its nodes -/

mutual

/-- What the walk over the tree computes at each node, in pre-order: the frame to report, and the
    context of the children. -/
def reports : Snapshot K → Context K → List (Rect K × Context K)
  | .node type _ _ frame children, context =>
    let effective := effectiveFrame frame context
    let inner := childContext type effective context
    (effective, inner) :: reportsAll children inner

def reportsAll : List (Snapshot K) → Context K → List (Rect K × Context K)
  | [], _ => []
  | child :: rest, context => reports child context ++ reportsAll rest context

end

mutual

/-- The frames of a tree in pre-order. -/
def frames : Snapshot K → List (Rect K)
  | .node _ _ _ frame children => frame :: framesAll children

def framesAll : List (Snapshot K) → List (Rect K)
  | [] => []
  | child :: rest => frames child ++ framesAll rest

end

/-- The context that a node with this parent gets behind the nodes placed so far. -/
def Hands (screen : Rect K) (done : List (Rect K × Context K)) (parent : Option ℕ)
    (context : Context K) : Prop :=
  (parent = none ∧ context = .ofViewport (.rect screen)) ∨
    ∃ p frame, parent = some p ∧ done[p]? = some (frame, context)

omit [Field K] [LinearOrder K] in
theorem Hands.append {screen : Rect K} {done : List (Rect K × Context K)} {parent : Option ℕ}
    {context : Context K} (h : Hands screen done parent context)
    (more : List (Rect K × Context K)) : Hands screen (done ++ more) parent context := by
  refine h.imp_right ?_
  rintro ⟨p, frame, hparent, hp⟩
  obtain ⟨hlt, -⟩ := List.getElem?_eq_some_iff.mp hp
  exact ⟨p, frame, hparent, by rw [List.getElem?_append_left hlt, hp]⟩

theorem Hands.placeNode_eq {screen : Rect K} {done : List (Rect K × Context K)} {node : Node K}
    {context : Context K} (h : Hands screen done node.parent context) :
    placeNode screen done node = done ++ [(effectiveFrame node.frame context,
      childContext node.elementType (effectiveFrame node.frame context) context)] := by
  rw [placeNode]
  rcases h with ⟨hparent, rfl⟩ | ⟨p, frame, hparent, hp⟩
  · rw [hparent]
    rfl
  · rw [hparent, Option.bind_some, hp]
    rfl

mutual

/-- **The nodes of a subtree** are placed as the walk over the tree places them. -/
theorem foldl_walk (screen : Rect K) (s : Snapshot K) (window parent : Option ℕ) (context : Context K)
    (done : List (Rect K × Context K)) (h : Hands screen done parent context) :
    (walk s window parent done.length).foldl (placeNode screen) done =
      done ++ reports s context := by
  cases s with
  | node type label identifier frame children =>
    rw [walk, reports, List.foldl_cons, Hands.placeNode_eq h]
    have hbelow := foldl_walkAll screen children
      (if type = .window ∧ window = none then some done.length else window) (some done.length)
      (childContext type (effectiveFrame frame context) context)
      (done ++ [(effectiveFrame frame context,
        childContext type (effectiveFrame frame context) context)])
      (.inr ⟨done.length, _, rfl, List.getElem?_concat_length⟩)
    rw [List.length_append, List.length_singleton] at hbelow
    rw [hbelow, List.append_assoc, List.singleton_append]

theorem foldl_walkAll (screen : Rect K) (rest : List (Snapshot K)) (window parent : Option ℕ)
    (context : Context K) (done : List (Rect K × Context K)) (h : Hands screen done parent context) :
    (walkAll rest window parent done.length).foldl (placeNode screen) done =
      done ++ reportsAll rest context := by
  cases rest with
  | nil => rw [walkAll, reportsAll, List.foldl_nil, List.append_nil]
  | cons child rest =>
    rw [walkAll, reportsAll]
    have hchild := foldl_walk screen child window parent context done h
    have hlength := length_placeNodes_from screen (walk child window parent done.length) done
    rw [hchild] at hlength
    rw [List.foldl_append, hchild, ← hlength,
      foldl_walkAll screen rest window parent context _ (h.append _), List.append_assoc]

end

theorem placeNodes_walk (screen : Rect K) (s : Snapshot K) :
    placeNodes screen (walk s none none 0) = reports s (.ofViewport (.rect screen)) :=
  foldl_walk screen s none none _ [] (.inl ⟨rfl, rfl⟩)

mutual

theorem frames_place (s : Snapshot K) (context : Context K) :
    ((place s context).2 = false → (place s context).1 = s) ∧
      frames (place s context).1 = (reports s context).map Prod.fst := by
  cases s with
  | node type label identifier frame children =>
    rw [place, reports]
    dsimp only
    have hchildren := frames_placeAll children
      (childContext type (effectiveFrame frame context) context)
    refine ⟨?_, ?_⟩
    · intro hsame
      obtain ⟨hframe, hbelow⟩ := Bool.or_eq_false_iff.mp hsame
      rw [hbelow, if_neg Bool.false_ne_true, of_not_not (of_decide_eq_false hframe)]
    · rw [frames, List.map_cons, ← hchildren.2]
      split_ifs with hbelow
      · rfl
      · rw [hchildren.1 (Bool.eq_false_of_not_eq_true hbelow)]

theorem frames_placeAll (rest : List (Snapshot K)) (context : Context K) :
    ((placeAll rest context).2 = false → (placeAll rest context).1 = rest) ∧
      framesAll (placeAll rest context).1 = (reportsAll rest context).map Prod.fst := by
  cases rest with
  | nil =>
    rw [placeAll, reportsAll]
    exact ⟨fun _ => rfl, rfl⟩
  | cons child rest =>
    rw [placeAll, reportsAll]
    dsimp only
    have hchild := frames_place child context
    have hrest := frames_placeAll rest context
    refine ⟨?_, ?_⟩
    · intro hsame
      obtain ⟨hfirst, hothers⟩ := Bool.or_eq_false_iff.mp hsame
      rw [hchild.1 hfirst, hrest.1 hothers]
    · rw [framesAll, List.map_append, hchild.2, hrest.2]

end

end Init

/-! ### Placing again -/

section Again

variable {K : Type} [Field K] [LinearOrder K]

theorem effectiveFrame_eq (frame : Rect K) (context : Context K) :
    effectiveFrame frame context = frame ∨
      context.offScreenCell = some (effectiveFrame frame context) ∧
        (Extent.rect frame).hasArea = true ∧
        (Extent.rect frame).overlaps (.rect (effectiveFrame frame context)) = false := by
  unfold effectiveFrame
  cases hcell : context.offScreenCell with
  | none => exact .inl rfl
  | some cell =>
    rw [Option.filter_some]
    split_ifs with hmisses
    · rw [Bool.and_eq_true, Bool.not_eq_true'] at hmisses
      exact .inr ⟨rfl, hmisses.1, hmisses.2⟩
    · exact .inl rfl

/-- A frame to report is reported. -/
theorem effectiveFrame_effectiveFrame (frame : Rect K) (context : Context K) :
    effectiveFrame (effectiveFrame frame context) context = effectiveFrame frame context := by
  rcases effectiveFrame_eq frame context with hsame | ⟨hcell, -, -⟩
  · rw [hsame, hsame]
  · generalize effectiveFrame frame context = cell at hcell ⊢
    rw [effectiveFrame, hcell, Option.filter_some]
    split_ifs with hmisses
    · rfl
    · rfl

mutual

theorem place_place (s : Snapshot K) (context : Context K) :
    place (place s context).1 context = ((place s context).1, false) := by
  cases s with
  | node type label identifier frame children =>
    rw [place, place, effectiveFrame_effectiveFrame]
    generalize childContext type (effectiveFrame frame context) context = inner
    have hagain : placeAll (if (placeAll children inner).2 then (placeAll children inner).1
        else children) inner = ((if (placeAll children inner).2 then (placeAll children inner).1
        else children), false) := by
      split_ifs with hbelow
      · exact placeAll_placeAll children inner
      · have hsame := (frames_placeAll children inner).1 (Bool.eq_false_of_not_eq_true hbelow)
        exact Prod.ext hsame (Bool.eq_false_of_not_eq_true hbelow)
    rw [hagain, if_neg Bool.false_ne_true, Bool.or_false, decide_eq_false (not_not_intro rfl)]

theorem placeAll_placeAll (rest : List (Snapshot K)) (context : Context K) :
    placeAll (placeAll rest context).1 context = ((placeAll rest context).1, false) := by
  cases rest with
  | nil => rw [placeAll, placeAll]
  | cons child rest =>
    rw [placeAll, placeAll, place_place child context, placeAll_placeAll rest context]
    rfl

end

end Again

/-! ### What a context says -/

section Surroundings

variable {K : Type} [Field K] [LinearOrder K] (screen : Rect K)

/-- What the scroll views among the nodes around show, innermost first. -/
def shown : List (Node K) → Extent K
  | [] => .rect screen
  | node :: around =>
    if node.elementType ∈ scrollerTypes then (shown around).intersection (.rect node.frame)
    else shown around

/-- A cell whose frame lies outside the area that its scroll views show. -/
structure Unloaded (cell : Node K) (around : List (Node K)) : Prop where
  is_cell : cell.elementType = .cell
  hasArea : (Extent.rect cell.frame).hasArea = true
  outside : (Extent.rect cell.frame).overlaps (shown screen around) = false

/-- The context inside the nodes around. -/
def contextOf : List (Node K) → Context K
  | [] => .ofViewport (.rect screen)
  | node :: around => childContext node.elementType node.frame (contextOf around)

theorem contextOf_viewport (around : List (Node K)) :
    (contextOf screen around).viewport = shown screen around := by
  induction around with
  | nil => rfl
  | cons node around ih =>
    rw [contextOf, childContext, shown, ih]

/-- The cell of a context is the nearest one around, and is unloaded. -/
theorem contextOf_offScreenCell {ns : List (Node K)} {frame : Rect K}
    (h : (contextOf screen ns).offScreenCell = some frame) :
    ∃ inner cell around, ns = inner ++ cell :: around ∧ (∀ n ∈ inner, n.elementType ≠ .cell) ∧
      Unloaded screen cell around ∧ cell.frame = frame := by
  induction ns with
  | nil => cases h
  | cons node ns ih =>
    rw [contextOf, childContext] at h
    dsimp only at h
    by_cases hcell : node.elementType = .cell
    · rw [if_pos hcell, hcell, if_neg (show ElementType.cell ∉ scrollerTypes by decide),
        contextOf_viewport] at h
      split_ifs at h with hout
      rw [Bool.and_eq_true, Bool.not_eq_true'] at hout
      exact ⟨[], node, ns, rfl, fun n hn => absurd hn List.not_mem_nil,
        ⟨hcell, hout.1, hout.2⟩, Option.some.inj h⟩
    · rw [if_neg hcell] at h
      obtain ⟨inner, cell, around, rfl, hinner, hunloaded, hframe⟩ := ih h
      exact ⟨node :: inner, cell, around, rfl, List.forall_mem_cons.mpr ⟨hcell, hinner⟩,
        hunloaded, hframe⟩

variable {screen}

/-- What lies outside an area lies outside what scroll views further in show. -/
theorem shown_append [IsStrictOrderedRing K] {r : Rect K} {around : List (Node K)}
    (h : (Extent.rect r).overlaps (shown screen around) = false) (inner : List (Node K)) :
    (Extent.rect r).overlaps (shown screen (inner ++ around)) = false := by
  induction inner with
  | nil => exact h
  | cons node inner ih =>
    rw [List.cons_append, shown]
    split_ifs
    · refine Bool.eq_false_of_not_eq_true fun hover => ?_
      rw [Extent.overlaps_of_intersection hover] at ih
      cases ih
    · exact ih

end Surroundings

/-! ### The analyzer -/

section Analyzer

variable {K : Type} [Field K] [LinearOrder K] {screen : Rect K} {nodes : List (Node K)}

/-- What is placed is not touched by what is placed behind it. -/
theorem placeNodes_from (done : List (Rect K × Context K)) {i : ℕ} (hi : i < done.length) :
    (nodes.foldl (placeNode screen) done)[i]? = done[i]? := by
  induction nodes generalizing done with
  | nil => rfl
  | cons node nodes ih =>
    rw [List.foldl_cons, ih _ (by rw [placeNode, List.length_append]; omega), placeNode,
      List.getElem?_append_left hi]

/-- A node is placed with the context of its parent. -/
theorem placeNodes_getElem? (hparents : ParentsBefore nodes) {i : ℕ} {node : Node K}
    (hnode : nodes[i]? = some node) :
    ∃ context, context = (node.parent.bind fun p => (placeNodes screen nodes)[p]?.map Prod.snd).getD
        (.ofViewport (.rect screen)) ∧
      (placeNodes screen nodes)[i]? = some (effectiveFrame node.frame context,
        childContext node.elementType (effectiveFrame node.frame context) context) := by
  obtain ⟨hi, rfl⟩ := List.getElem?_eq_some_iff.mp hnode
  have hsplit : nodes = nodes.take i ++ nodes[i] :: nodes.drop (i + 1) := by
    rw [List.getElem_cons_drop, List.take_append_drop]
  have hlength : (placeNodes screen (nodes.take i)).length = i := by
    rw [length_placeNodes, List.length_take, Nat.min_eq_left hi.le]
  have hfold : placeNodes screen nodes =
      (nodes.drop (i + 1)).foldl (placeNode screen)
        (placeNode screen (placeNodes screen (nodes.take i)) nodes[i]) := by
    conv_lhs => rw [hsplit]
    rw [placeNodes, List.foldl_append, List.foldl_cons]
    rfl
  have hbefore : ∀ p, nodes[i].parent = some p →
      (placeNodes screen nodes)[p]? = (placeNodes screen (nodes.take i))[p]? := by
    intro p hp
    have hlt := hparents i _ p hnode hp
    rw [hfold, placeNodes_from _ (by rw [placeNode, List.length_append]; omega), placeNode,
      List.getElem?_append_left (by omega)]
  have hcontext : (nodes[i].parent.bind fun p => (placeNodes screen nodes)[p]?.map Prod.snd) =
      nodes[i].parent.bind fun p => (placeNodes screen (nodes.take i))[p]?.map Prod.snd := by
    cases hp : nodes[i].parent with
    | none => rfl
    | some p => rw [Option.bind_some, Option.bind_some, hbefore p hp]
  refine ⟨_, rfl, ?_⟩
  rw [hcontext]
  generalize hplaced : placeNodes screen (nodes.take i) = placed at hlength hfold
  conv_lhs => rw [hfold, placeNodes_from _ (by rw [placeNode, List.length_append]; simp; omega),
    placeNode, List.getElem?_append_right hlength.le, hlength, Nat.sub_self]
  rfl

/-- **The context of a node** is what the placed nodes around it say. -/
theorem placed_at (hparents : ParentsBefore nodes) {i : ℕ} {node : Node K}
    (hnode : nodes[i]? = some node) :
    (placeNodes screen nodes)[i]? =
      some (effectiveFrame node.frame
          (contextOf screen ((init nodes screen hparents).ancestorNodes i)),
        childContext node.elementType (effectiveFrame node.frame
          (contextOf screen ((init nodes screen hparents).ancestorNodes i)))
          (contextOf screen ((init nodes screen hparents).ancestorNodes i))) := by
  induction i using Nat.strong_induction_on generalizing node with
  | _ i ih =>
    obtain ⟨context, hcontext, hplaced⟩ :=
      @placeNodes_getElem? K _ _ screen nodes hparents i node hnode
    have hplacedNode : (init nodes screen hparents).nodes[i]? =
        some (withReport node (effectiveFrame node.frame context,
          childContext node.elementType (effectiveFrame node.frame context) context)) :=
      List.getElem?_zipWith_eq_some.mpr ⟨node, _, hnode, hplaced, rfl⟩
    have hparentOf : (init nodes screen hparents).parentOf i = node.parent := by
      rw [Analyzer.parentOf, hplacedNode]
      rfl
    have hsame : context = contextOf screen ((init nodes screen hparents).ancestorNodes i) := by
      rw [Analyzer.ancestorNodes, Analyzer.ancestors_eq, hparentOf, hcontext]
      cases hp : node.parent with
      | none => rfl
      | some p =>
        have hlt := hparents i node p hnode hp
        obtain ⟨hi, -⟩ := List.getElem?_eq_some_iff.mp hnode
        have hparent : nodes[p]? = some nodes[p] := List.getElem?_eq_getElem (by omega)
        have hat := ih p hlt hparent
        have haround : (init nodes screen hparents).nodes[p]? = some (withReport nodes[p] _) :=
          List.getElem?_zipWith_eq_some.mpr ⟨nodes[p], _, hparent, hat, rfl⟩
        rw [Option.bind_some, hat, Option.map_some, Option.getD_some, Option.elim_some,
          List.filterMap_cons_some haround]
        rfl
    rw [hplaced, hsame]

end Analyzer

/-! ### Where the nodes are placed -/

section Placement

variable {K : Type} [Field K] [LinearOrder K]

/-- What the two walks make of a snapshot. -/
structure Placement (snapshot : Snapshot K) (screen : Rect K) : Prop where
  /-- the tree and the nodes get the same frames -/
  same_frames : frames (placeDetachedNodes snapshot) =
    (ofSnapshot snapshot screen).nodes.map Node.frame
  again : placeDetachedNodes (placeDetachedNodes snapshot) = placeDetachedNodes snapshot
  /-- a node that moves misses the nearest cell around it, which is unloaded, and moves there -/
  moved : ∀ (i : ℕ) (node : Node K) (frame : Rect K),
    (ofSnapshot snapshot screen).nodes[i]? = some node →
    (ofSnapshot snapshot screen).snapshotFrames[i]? = some frame → node.frame ≠ frame →
    (Extent.rect frame).hasArea = true ∧
    ∃ inner cell around, (ofSnapshot snapshot screen).ancestorNodes i = inner ++ cell :: around ∧
      (∀ n ∈ inner, n.elementType ≠ .cell) ∧ Unloaded screen cell around ∧
      (Extent.rect frame).overlaps (.rect cell.frame) = false ∧ node.frame = cell.frame ∧
      (Extent.rect node.frame).overlaps (shown screen around) = false ∧
      (Extent.rect node.frame).overlaps
        (shown screen ((ofSnapshot snapshot screen).ancestorNodes i)) = false
  /-- inside a cell on screen, a node moves only for an unloaded cell further in -/
  kept : ∀ (i : ℕ) (node : Node K) (frame : Rect K) (inner around : List (Node K)) (cell : Node K),
    (ofSnapshot snapshot screen).nodes[i]? = some node →
    (ofSnapshot snapshot screen).snapshotFrames[i]? = some frame →
    (ofSnapshot snapshot screen).ancestorNodes i = inner ++ cell :: around →
    cell.elementType = .cell → (Extent.rect cell.frame).overlaps (shown screen around) = true →
    (∀ further n nearer, inner = further ++ n :: nearer →
      ¬ Unloaded screen n (nearer ++ cell :: around)) →
    node.frame = frame

theorem frame_place (s : Snapshot K) (context : Context K) :
    (place s context).1.frame = effectiveFrame s.frame context := by
  cases s with
  | node type label identifier frame children =>
    rw [place]
    rfl

theorem placeDetachedNodes_eq {snapshot : Snapshot K}
    (hscreen : (Extent.rect snapshot.frame).hasArea = true) :
    placeDetachedNodes snapshot = (place snapshot (.ofViewport (.rect snapshot.frame))).1 := by
  rw [placeDetachedNodes, if_pos hscreen]

/-- The frame of a node of the analyzer, from what the nodes around say. -/
theorem frame_ofSnapshot {snapshot : Snapshot K} {screen : Rect K} {i : ℕ} {node : Node K}
    {frame : Rect K} (hnode : (ofSnapshot snapshot screen).nodes[i]? = some node)
    (hframe : (ofSnapshot snapshot screen).snapshotFrames[i]? = some frame) :
    node.frame =
      effectiveFrame frame (contextOf screen ((ofSnapshot snapshot screen).ancestorNodes i)) := by
  obtain ⟨raw, report, hraw, hreport, rfl⟩ := List.getElem?_zipWith_eq_some.mp hnode
  rw [placed_at (parentsBefore_walk snapshot) hraw] at hreport
  obtain rfl := Option.some.inj hreport
  have hsnapshot : (ofSnapshot snapshot screen).snapshotFrames[i]? = some raw.frame := by
    show ((walk snapshot none none 0).map Node.frame)[i]? = _
    rw [List.getElem?_map, hraw, Option.map_some]
  obtain rfl : raw.frame = frame := Option.some.inj (hsnapshot.symm.trans hframe)
  rfl

omit [Field K] [LinearOrder K] in
theorem map_frame_zipWith {nodes : List (Node K)} {reports : List (Rect K × Context K)}
    (hlength : reports.length = nodes.length) :
    (List.zipWith withReport nodes reports).map Node.frame = reports.map Prod.fst := by
  induction nodes generalizing reports with
  | nil =>
    rw [List.length_eq_zero_iff.mp hlength]
    rfl
  | cons node nodes ih =>
    cases reports with
    | nil => cases hlength
    | cons report reports =>
      rw [List.zipWith_cons_cons, List.map_cons, List.map_cons, ih (Nat.succ.inj hlength)]
      rfl

/-- A node that moves misses the nearest cell around it, which is unloaded, and moves there. -/
theorem moves_to_cell [IsStrictOrderedRing K] {snapshot : Snapshot K} {screen : Rect K} {i : ℕ}
    {node : Node K} {frame : Rect K} (hnode : (ofSnapshot snapshot screen).nodes[i]? = some node)
    (hframe : (ofSnapshot snapshot screen).snapshotFrames[i]? = some frame)
    (hne : node.frame ≠ frame) :
    (Extent.rect frame).hasArea = true ∧
    ∃ inner cell around, (ofSnapshot snapshot screen).ancestorNodes i = inner ++ cell :: around ∧
      (∀ n ∈ inner, n.elementType ≠ .cell) ∧ Unloaded screen cell around ∧
      (Extent.rect frame).overlaps (.rect cell.frame) = false ∧ node.frame = cell.frame ∧
      (Extent.rect node.frame).overlaps (shown screen around) = false ∧
      (Extent.rect node.frame).overlaps
        (shown screen ((ofSnapshot snapshot screen).ancestorNodes i)) = false := by
  have hplaced := frame_ofSnapshot hnode hframe
  rcases effectiveFrame_eq frame (contextOf screen
    ((ofSnapshot snapshot screen).ancestorNodes i)) with hsame | ⟨hcell, harea, hmiss⟩
  · exact absurd (hplaced.trans hsame) hne
  · rw [← hplaced] at hcell hmiss
    obtain ⟨inner, cell, around, hancestors, hinner, hunloaded, hcellFrame⟩ :=
      contextOf_offScreenCell _ hcell
    rw [← hcellFrame] at hmiss
    have houtside := hunloaded.outside
    rw [hcellFrame] at houtside
    refine ⟨harea, inner, cell, around, hancestors, hinner, hunloaded, hmiss, hcellFrame.symm,
      houtside, ?_⟩
    -- the scroll views between the cell and the node show no more
    have hcons := shown_append houtside (inner ++ [cell])
    rwa [List.append_assoc, List.singleton_append, ← hancestors] at hcons

/-- **Unloaded rows** are placed alike by both walks, once and for all, and nothing else moves. -/
theorem placed_everywhere [IsStrictOrderedRing K] {snapshot : Snapshot K} {screen : Rect K}
    (hroot : snapshot.frame = screen) (hscreen : (Extent.rect screen).hasArea = true) :
    Placement snapshot screen := by
  subst hroot
  refine ⟨?_, ?_, fun i node frame => moves_to_cell, ?_⟩
  · rw [placeDetachedNodes_eq hscreen, (frames_place snapshot _).2]
    rw [← placeNodes_walk]
    exact (map_frame_zipWith (length_placeNodes _ _)).symm
  · have hroot : (place snapshot (.ofViewport (.rect snapshot.frame))).1.frame = snapshot.frame :=
      frame_place _ _
    rw [placeDetachedNodes_eq hscreen]
    rw [placeDetachedNodes_eq (by rw [hroot]; exact hscreen), hroot, place_place]
  · intro i node frame inner around cell hnode hframe hancestors hcell hshown hfurther
    by_contra hne
    obtain ⟨-, inner', cell', around', hancestors', hinner', hunloaded, -⟩ :=
      moves_to_cell hnode hframe hne
    rw [hancestors] at hancestors'
    rcases List.append_eq_append_iff.mp hancestors' with ⟨between, rfl, hrest⟩ | ⟨between, rfl, hrest⟩
    · cases between with
      | nil =>
        obtain ⟨rfl, rfl⟩ := List.cons.inj hrest
        rw [hunloaded.outside] at hshown
        cases hshown
      | cons n between =>
        obtain ⟨rfl, -⟩ := List.cons.inj hrest
        exact hinner' cell (by simp) hcell
    · cases between with
      | nil =>
        obtain ⟨rfl, rfl⟩ := List.cons.inj hrest
        rw [hunloaded.outside] at hshown
        cases hshown
      | cons n between =>
        obtain ⟨rfl, rfl⟩ := List.cons.inj hrest
        exact hfurther inner' cell' between rfl hunloaded

theorem placed_everywhere_table :
    Placement (K := ℚ) (.node .application "" "" ⟨0, 0, 402, 874⟩
      [.node .table "" "" ⟨0, 168, 402, 840⟩
        [.node .cell "" "" ⟨0, 901, 402, 954⟩
          [.node .staticText "Row 14" "" ⟨0, 168, 55, 188⟩ []]]]) ⟨0, 0, 402, 874⟩ :=
  placed_everywhere rfl (by decide +kernel)

/-- The text of an unloaded row below the screen is placed at its row. -/
example : frames (placeDetachedNodes (K := ℚ) (.node .application "" "" ⟨0, 0, 402, 874⟩
    [.node .table "" "" ⟨0, 168, 402, 840⟩
      [.node .cell "" "" ⟨0, 901, 402, 954⟩
        [.node .staticText "Row 14" "" ⟨0, 168, 55, 188⟩ []]]])) =
    [⟨0, 0, 402, 874⟩, ⟨0, 168, 402, 840⟩, ⟨0, 901, 402, 954⟩, ⟨0, 901, 402, 954⟩] := by
  decide +kernel

end Placement

end Tapsmith.Ios.CellFrames
