import Mathlib.Algebra.Order.Floor.Semiring
import Mathlib.Analysis.Real.Sqrt
import Mathlib.Data.List.TakeWhile
import Mathlib.Data.Rat.Floor
import Mathlib.Tactic.Ring
import Tapsmith.Ios.Occlusion

namespace Tapsmith.Ios

open Lib Occlusion

/-!
# Putting the keyboard away on iOS

`KeyboardDismissPlanner.swift`: a place to touch that does nothing else, from one snapshot of the
tree. Frames are as in `Tapsmith.Ios.Occlusion`; the square root is a parameter.

* `clearestPoint` — the point of a grid in a rectangle that is furthest from what it must not hit;
* `blankPoint`, `scrollSwipe` — the containers and the scroll views in which it is looked for;
* `clearestPoint_some`, `clearestPoint_none` — what is found, and that nothing is missed;
* `touches_press_nothing_iff` — where the touches press nothing.
-/

/-- The planner's snapshot. `CGRect.width` is never negative. -/
structure KeyboardDismissPlanner (K : Type) [Field K] [LinearOrder K] where
  analyzer : Analyzer K
  standardized : analyzer.screen.left ≤ analyzer.screen.right ∧
    analyzer.screen.top ≤ analyzer.screen.bottom

/-! ### Geometry -/

theorem two_atLeastTwo : Nat.AtLeastTwo 2 := ⟨Nat.le_refl 2⟩

theorem three_atLeastTwo : Nat.AtLeastTwo 3 := ⟨Nat.le_succ 2⟩

theorem four_atLeastTwo : Nat.AtLeastTwo 4 := ⟨Nat.le_add_right 2 2⟩

attribute [local instance] two_atLeastTwo three_atLeastTwo four_atLeastTwo

section

variable {K : Type} [Field K] [LinearOrder K]

def touchClearance : K := 8
def gridStep : K := 8
def statusBarAllowance : K := 60
def swipeFraction : K := 3 / 100
def minScrollExtent : K := 44
def containerAreaFraction : K := 1 / 2
def fullScreenFraction : K := 95 / 100

/-- `OcclusionAnalyzer.framesMatch` with a tolerance. -/
def framesMatchWithin (tolerance : K) (a b : Rect K) : Bool :=
  |a.left - b.left| ≤ tolerance && |a.top - b.top| ≤ tolerance &&
    |width a - width b| ≤ tolerance && |height a - height b| ≤ tolerance

/-- `CGRect.insetBy` with the distance negated. -/
def outset (distance : K) (r : Rect K) : Rect K :=
  ⟨r.left - distance, r.top - distance, r.right + distance, r.bottom + distance⟩

/-- `CGRect.intersects` -/
def intersects (r s : Rect K) : Bool := (intersection r s).isSome

/-- Distance from `p` to the nearest point of `r` (0 inside it). -/
def distance (squareRoot : K → K) (p : K × K) (r : Rect K) : K :=
  let dx := max (max (r.left - p.1) 0) (p.1 - r.right)
  let dy := max (max (r.top - p.2) 0) (p.2 - r.bottom)
  squareRoot (dx * dx + dy * dy)

/-- The distance to the edges of the rectangle around the point. -/
def edgeClearance (rect : Rect K) (p : K × K) : K :=
  min (min (min (p.1 - rect.left) (rect.right - p.1)) (p.2 - rect.top)) (rect.bottom - p.2)

/-- The loop over the frames, up to the first that is too near. -/
def clearanceLoop (squareRoot : K → K) (p : K × K) : List (Rect K) → K → K
  | [], clearance => clearance
  | f :: rest, clearance =>
    let clearance := min clearance (distance squareRoot p f)
    if clearance < touchClearance then clearance else clearanceLoop squareRoot p rest clearance

/-- `while v <= last { …; v += gridStep }` -/
def gridLoop (last : K) : ℕ → K → List K
  | 0, _ => []
  | fuel + 1, v => if v ≤ last then v :: gridLoop last fuel (v + gridStep) else []

variable [FloorSemiring K]

def gridLine (first last : K) : List K := gridLoop last (⌊(last - first) / gridStep⌋₊ + 1) first

/-- The candidate touch points, row by row. -/
def gridPoints (rect : Rect K) : List (K × K) :=
  (gridLine (rect.top + touchClearance) (rect.bottom - touchClearance)).flatMap fun y =>
    (gridLine (rect.left + touchClearance) (rect.right - touchClearance)).map fun x => (x, y)

end

/-! ### The snapshot -/

def draggableScrollerTypes : List ElementType := [.scrollView, .table, .collectionView]

def singleLineInputTypes : List ElementType := [.textField, .secureTextField, .searchField]

def textInputTypes : List ElementType := singleLineInputTypes ++ [.textView]

namespace KeyboardDismissPlanner

variable {K : Type} [Field K] [LinearOrder K] (planner : KeyboardDismissPlanner K)

def nodes : List (Node K) := planner.analyzer.nodes

def screen : Rect K := planner.analyzer.screen

def hasType (types : List ElementType) (i : ℕ) : Bool :=
  planner.nodes[i]?.any fun node => node.elementType ∈ types

/-! ### The keyboard -/

/-- Whether a node of the keyboard's windows sits on top of the keys. -/
def growsKeys (keys : Rect K) (node : Node K) : Bool :=
  let f := node.frame
  planner.analyzer.inKeyboardWindow node && 0 < width f && 0 < height f &&
    planner.screen.top ≤ f.top && f.bottom ≤ planner.screen.bottom + 1 &&
    height f ≤ height planner.screen * (3 / 4) && keys.left < f.right && f.left < keys.right &&
    keys.top ≤ f.bottom

/-- A frame's part on screen that is not empty. -/
def onScreen (frame : Rect K) : Option (Rect K) :=
  (intersection frame planner.screen).filter fun r => 0 < width r && 0 < height r

/-- The screen area the keyboard covers. -/
def keyboardRegion : Option (Rect K) :=
  (planner.analyzer.keyboardRegion.bind planner.onScreen).orElse fun _ =>
    (planner.nodes.findSome? fun node =>
      if node.elementType = .keyboard then planner.onScreen node.frame else none).map fun keys =>
    let top := (planner.nodes.filter (planner.growsKeys keys)).foldl
      (fun top node => min top node.frame.top) keys.top
    cgRect planner.screen.left top (width planner.screen) (planner.screen.bottom - top)

/-- The part of the screen an app touch may use. -/
def touchableArea : Option (Rect K) :=
  planner.keyboardRegion.bind fun keyboard =>
    let top := planner.screen.top + statusBarAllowance
    let bottom := min keyboard.top planner.screen.bottom
    if bottom > top then
      some (cgRect planner.screen.left top (width planner.screen) (bottom - top))
    else none

/-! ### The focused field's scope -/

/-- The focused field's node, matched by the live focus query's frame. -/
def fieldIndex (focusedFrame : Option (Rect K)) : Option ℕ :=
  focusedFrame.bind fun frame => ((planner.nodes.zipIdx.filter fun node =>
    decide (node.1.elementType ∈ textInputTypes) &&
      framesMatchWithin (3 / 2) node.1.frame frame).getLast?).map Prod.snd

/-- A rectangle clipped to the viewports of every scroll view around a node. -/
def clippedToScrollers (rect : Option (Rect K)) (i : ℕ) : Option (Rect K) :=
  (planner.analyzer.scrollerFrames i).foldl (fun rect frame => rect.bind (intersection · frame)) rect

/-- The part of a node's frame in `area` that its scrollers, or those of `around`, show. -/
def shown (area : Rect K) (i around : ℕ) : Option (Rect K) :=
  planner.clippedToScrollers (planner.nodes[i]?.bind fun node => intersection node.frame area) around

/-- A window or the application, or what covers nearly the whole screen. -/
def endsScope (i : ℕ) : Bool :=
  planner.hasType [.window, .application] i ||
    (planner.shown planner.screen i i).any fun f =>
      width planner.screen * height planner.screen * fullScreenFraction ≤ width f * height f

/-- The field's ancestors, nearest first, up to the first that covers nearly the whole screen. -/
def scopeAncestors (field : ℕ) : List ℕ :=
  (planner.analyzer.ancestors field).takeWhile fun i => !planner.endsScope i

/-! ### Clear points -/

/-- A node a touch may land on without doing anything. -/
def isPlain (i : ℕ) : Bool :=
  planner.nodes[i]?.any fun node =>
    if Analyzer.isTapsmithHooksMarker node = true then true
    else if node.elementType = .application ∨ node.elementType = .window then true
    else if node.elementType = .other then
      if node.label ≠ "" then false
      else if node.identifier = "" then true
      else (intersection node.frame planner.screen).all fun area =>
        width planner.screen * height planner.screen * containerAreaFraction ≤
          width area * height area
    else false

/-- The ancestors that a touch meant for the node passes through. -/
def transparent (i : ℕ) : List ℕ :=
  (planner.analyzer.ancestors i).filter fun j =>
    planner.isPlain j || planner.hasType draggableScrollerTypes j

/-- The frames in and around `rect` that must not be hit. -/
def blocked (rect : Rect K) (blockers : ℕ → Bool) : List (Rect K) :=
  (planner.nodes.zipIdx.filter fun node =>
    let f := node.1.frame
    decide (0 < width f) && decide (0 < height f) && intersects f (outset touchClearance rect) &&
      blockers node.2).map fun node => node.1.frame

variable (squareRoot : K → K)

def clearance (rect : Rect K) (blockers : ℕ → Bool) (p : K × K) : K :=
  clearanceLoop squareRoot p (planner.blocked rect blockers) (edgeClearance rect p)

/-- One point of the grid: it is the best so far if it is clear and clearer than the one before. -/
def clearer (rect : Rect K) (blockers : ℕ → Bool) (best : Option ((K × K) × K)) (p : K × K) :
    Option ((K × K) × K) :=
  let clearance := planner.clearance squareRoot rect blockers p
  if touchClearance ≤ clearance ∧ (best.map Prod.snd).getD (-1) < clearance then some (p, clearance)
  else best

variable [FloorSemiring K]

/-- The grid point in `rect` furthest from every blocking node's frame and from its edges. -/
def clearestPoint (rect : Rect K) (blockers : ℕ → Bool) : Option (K × K) :=
  if width rect < 2 * touchClearance ∨ height rect < 2 * touchClearance then none
  else ((gridPoints rect).foldl (planner.clearer squareRoot rect blockers) none).map Prod.fst

/-! ### Scroll view drag -/

/-- What the drag in a scroll view must not start on. -/
def dragBlockers (scroll i : ℕ) : Bool :=
  !(i = scroll || i ∈ planner.transparent scroll) && !planner.isPlain i

/-- Where the drag may start: it ends `dragY` above and `dragX` left of there. -/
def dragStarts (visible : Rect K) (dragX dragY : K) : Rect K :=
  cgRect (visible.left + dragX) (visible.top + dragY) (width visible - dragX)
    (height visible - dragY)

/-- A clear start point for the drag in a scroll view. -/
def dragStart (scroll : ℕ) (visible : Rect K) (dragX dragY : K) : Option (K × K) :=
  let starts := dragStarts visible dragX dragY
  if 0 < width starts ∧ 0 < height starts then
    planner.clearestPoint squareRoot starts (planner.dragBlockers scroll)
  else none

def dragY : K := height planner.screen * swipeFraction

def dragX : K := width planner.screen * swipeFraction

/-- The visible part of a scroll view that the drag may use. -/
def draggable (area : Rect K) (scroll : ℕ) : Option (Rect K) :=
  if planner.nodes[scroll]?.any planner.analyzer.inKeyboardWindow = true then none
  else (planner.shown area scroll scroll).filter fun visible =>
    minScrollExtent ≤ width visible && minScrollExtent ≤ height visible

/-- The scroll view that is dragged and where the drag starts: the nearest with a start. -/
def scrollSwipe (focusedFrame : Option (Rect K)) : Option (ℕ × (K × K)) :=
  planner.touchableArea.bind fun area => (planner.fieldIndex focusedFrame).bind fun field =>
    ((planner.analyzer.ancestors field).filter (planner.hasType draggableScrollerTypes)).findSome?
      fun scroll => (planner.draggable area scroll).bind fun visible =>
        (planner.dragStart squareRoot scroll visible planner.dragX planner.dragY).map (scroll, ·)

def scrollSwipeStart (focusedFrame : Option (Rect K)) : Option (K × K) :=
  (planner.scrollSwipe squareRoot focusedFrame).map Prod.snd

/-! ### Blank spot -/

/-- What a tap beside the field must not hit. -/
def tapBlockers (field i : ℕ) : Bool := !decide (i ∈ planner.transparent field) && !planner.isPlain i

/-- The nearest container of the field with a clear point, and the point. -/
def blankSpot (focusedFrame : Option (Rect K)) : Option (ℕ × (K × K)) :=
  planner.touchableArea.bind fun area => (planner.fieldIndex focusedFrame).bind fun field =>
    (planner.scopeAncestors field).findSome? fun container =>
      (planner.shown area container field).bind fun rect =>
        (planner.clearestPoint squareRoot rect (planner.tapBlockers field)).map (container, ·)

def blankPoint (focusedFrame : Option (Rect K)) : Option (K × K) :=
  (planner.blankSpot squareRoot focusedFrame).map Prod.snd

end KeyboardDismissPlanner

/-! ### The grid -/

section Grid

variable {K : Type} [Field K] [LinearOrder K] [IsStrictOrderedRing K]

theorem mem_gridLoop {last v first : K} {fuel : ℕ} :
    v ∈ gridLoop last fuel first ↔ ∃ n < fuel, v = first + n * gridStep ∧ v ≤ last := by
  have hstep : (0 : K) < gridStep := by norm_num [gridStep]
  induction fuel generalizing first with
  | zero => simp [gridLoop]
  | succ fuel ih =>
    rw [gridLoop]
    split_ifs with hfirst
    · refine List.mem_cons.trans ((or_congr_right ih).trans ?_)
      constructor
      · rintro (rfl | ⟨n, hn, rfl, hlast⟩)
        · exact ⟨0, Nat.succ_pos _, by simp, hfirst⟩
        · refine ⟨n + 1, Nat.succ_lt_succ hn, ?_, hlast⟩
          push_cast
          ring
      · rintro ⟨n, hn, rfl, hlast⟩
        cases n with
        | zero => exact .inl (by simp)
        | succ n =>
          refine .inr ⟨n, Nat.lt_of_succ_lt_succ hn, ?_, hlast⟩
          push_cast
          ring
    · refine iff_of_false List.not_mem_nil ?_
      rintro ⟨n, -, rfl, hlast⟩
      have hn : 0 ≤ (n : K) * gridStep := mul_nonneg (Nat.cast_nonneg n) hstep.le
      exact hfirst (by linarith)

variable [FloorSemiring K]

/-- **The loop** goes through every step up to the last. -/
theorem mem_gridLine {first last v : K} :
    v ∈ gridLine first last ↔ ∃ n : ℕ, v = first + n * gridStep ∧ v ≤ last := by
  have hstep : (0 : K) < gridStep := by norm_num [gridStep]
  rw [gridLine, mem_gridLoop]
  constructor
  · rintro ⟨n, -, hv⟩
    exact ⟨n, hv⟩
  · rintro ⟨n, rfl, hlast⟩
    refine ⟨n, Nat.lt_succ_of_le (Nat.le_floor ?_), rfl, hlast⟩
    rw [le_div_iff₀ hstep]
    linarith

/-- A point inside of a rectangle, and as far from its edges as a touch keeps. -/
def Deep (rect : Rect K) (p : K × K) : Prop :=
  rect.left + touchClearance ≤ p.1 ∧ p.1 ≤ rect.right - touchClearance ∧
    rect.top + touchClearance ≤ p.2 ∧ p.2 ≤ rect.bottom - touchClearance

theorem mem_gridPoints {rect : Rect K} {p : K × K} : p ∈ gridPoints rect ↔
    ∃ m n : ℕ, p = (rect.left + touchClearance + m * gridStep,
      rect.top + touchClearance + n * gridStep) ∧ Deep rect p := by
  have hstep : (0 : K) < gridStep := by norm_num [gridStep]
  unfold gridPoints
  simp only [List.mem_flatMap, List.mem_map, mem_gridLine]
  constructor
  · rintro ⟨_, ⟨n, rfl, hy⟩, _, ⟨m, rfl, hx⟩, rfl⟩
    have hm : 0 ≤ (m : K) * gridStep := mul_nonneg (Nat.cast_nonneg m) hstep.le
    have hn : 0 ≤ (n : K) * gridStep := mul_nonneg (Nat.cast_nonneg n) hstep.le
    exact ⟨m, n, rfl, le_add_of_nonneg_right hm, hx, le_add_of_nonneg_right hn, hy⟩
  · rintro ⟨m, n, rfl, -, hx, -, hy⟩
    exact ⟨_, ⟨n, rfl, hy⟩, _, ⟨m, rfl, hx⟩, rfl⟩

theorem deep_of_mem {rect : Rect K} {p : K × K} (h : p ∈ gridPoints rect) : Deep rect p := by
  obtain ⟨-, -, -, hdeep⟩ := mem_gridPoints.mp h
  exact hdeep

end Grid

/-! ### Distances -/

section Distances

variable {K : Type} [Field K] [LinearOrder K] [IsStrictOrderedRing K] {squareRoot : K → K}

/-- The square root of what is not negative. -/
def IsRoot (squareRoot : K → K) : Prop :=
  ∀ x, 0 ≤ x → 0 ≤ squareRoot x ∧ squareRoot x * squareRoot x = x

/-- What is far to a side is far. -/
theorem le_distance (hroot : IsRoot squareRoot) {c : K} (hc : 0 ≤ c) {p : K × K} {r : Rect K}
    (h : p.1 + c ≤ r.left ∨ r.right + c ≤ p.1 ∨ p.2 + c ≤ r.top ∨ r.bottom + c ≤ p.2) :
    c ≤ distance squareRoot p r := by
  have hside : c ≤ max (max (r.left - p.1) 0) (p.1 - r.right) ∨
      c ≤ max (max (r.top - p.2) 0) (p.2 - r.bottom) := by
    rcases h with h | h | h | h
    · exact .inl (le_max_of_le_left (le_max_of_le_left (by linarith)))
    · exact .inl (le_max_of_le_right (by linarith))
    · exact .inr (le_max_of_le_left (le_max_of_le_left (by linarith)))
    · exact .inr (le_max_of_le_right (by linarith))
  obtain ⟨dx, hdx⟩ : ∃ dx, max (max (r.left - p.1) 0) (p.1 - r.right) = dx := ⟨_, rfl⟩
  obtain ⟨dy, hdy⟩ : ∃ dy, max (max (r.top - p.2) 0) (p.2 - r.bottom) = dy := ⟨_, rfl⟩
  rw [hdx, hdy] at hside
  unfold distance
  rw [hdx, hdy]
  obtain ⟨hnonneg, hsquare⟩ := hroot (dx * dx + dy * dy)
    (add_nonneg (mul_self_nonneg dx) (mul_self_nonneg dy))
  refine le_of_not_gt fun hlt => ?_
  have hless := mul_self_lt_mul_self hnonneg hlt
  rw [hsquare] at hless
  rcases hside with hside | hside
  · nlinarith [mul_self_le_mul_self hc hside, mul_self_nonneg dy]
  · nlinarith [mul_self_le_mul_self hc hside, mul_self_nonneg dx]

omit [IsStrictOrderedRing K] in
/-- **The loop** over the frames stops early only below the clearance. -/
theorem le_clearanceLoop {p : K × K} {frames : List (Rect K)} {c : K} :
    touchClearance ≤ clearanceLoop squareRoot p frames c ↔
      touchClearance ≤ c ∧ ∀ f ∈ frames, touchClearance ≤ distance squareRoot p f := by
  induction frames generalizing c with
  | nil => simp [clearanceLoop]
  | cons f rest ih =>
    rw [clearanceLoop, List.forall_mem_cons]
    split_ifs with hnear
    · refine iff_of_false (not_le.mpr hnear) ?_
      rintro ⟨hc, hf, -⟩
      exact not_lt.mpr (le_min hc hf) hnear
    · rw [ih, le_min_iff, and_assoc]

theorem le_edgeClearance {rect : Rect K} {p : K × K} :
    touchClearance ≤ edgeClearance rect p ↔ Deep rect p := by
  unfold edgeClearance Deep
  rw [le_min_iff, le_min_iff, le_min_iff, and_assoc, and_assoc]
  refine and_congr (le_sub_iff_add_le'.trans ?_) (and_congr le_sub_comm
    (and_congr (le_sub_iff_add_le'.trans ?_) le_sub_comm))
  · exact Iff.rfl
  · exact Iff.rfl

theorem outset_apart {rect f : Rect K} {p : K × K} (hdeep : Deep rect p)
    (hproper : f.Proper) (h : intersects f (outset touchClearance rect) = false) :
    p.1 + touchClearance ≤ f.left ∨ f.right + touchClearance ≤ p.1 ∨
      p.2 + touchClearance ≤ f.top ∨ f.bottom + touchClearance ≤ p.2 := by
  obtain ⟨hleft, hright, htop, hbottom⟩ := hdeep
  obtain ⟨hw, hh⟩ := hproper
  have hpos : (0 : K) < touchClearance := by norm_num [touchClearance]
  by_contra hnear
  simp only [not_or, not_le] at hnear
  obtain ⟨h₁, h₂, h₃, h₄⟩ := hnear
  have hmeet : (f.meet (outset touchClearance rect)).left ≤
        (f.meet (outset touchClearance rect)).right ∧
      (f.meet (outset touchClearance rect)).top ≤
        (f.meet (outset touchClearance rect)).bottom := by
    refine ⟨max_le (le_min hw.le ?_) (le_min ?_ ?_), max_le (le_min hh.le ?_) (le_min ?_ ?_)⟩ <;>
      dsimp only [outset] <;> linarith
  rw [intersects, intersection, if_pos hmeet] at h
  cases h

end Distances

namespace KeyboardDismissPlanner

variable {K : Type} [Field K] [LinearOrder K] {planner : KeyboardDismissPlanner K}
  {squareRoot : K → K}

/-! ### The clearest point -/

/-- The point is clear of the frames of all nodes, but for those that are empty or do not block. -/
def Clear (planner : KeyboardDismissPlanner K) (squareRoot : K → K) (blockers : ℕ → Bool)
    (p : K × K) : Prop :=
  ∀ i node, planner.nodes[i]? = some node → 0 < width node.frame → 0 < height node.frame →
    blockers i = true → touchClearance ≤ distance squareRoot p node.frame

variable [IsStrictOrderedRing K]

/-- Nodes beside the rectangle are far from what is deep in it. -/
theorem le_clearance_iff (hroot : IsRoot squareRoot) {rect : Rect K} {blockers : ℕ → Bool}
    {p : K × K} : touchClearance ≤ planner.clearance squareRoot rect blockers p ↔
      Deep rect p ∧ planner.Clear squareRoot blockers p := by
  rw [clearance, le_clearanceLoop, le_edgeClearance]
  refine and_congr_right fun hdeep => ?_
  constructor
  · intro h i node hnode hw hh hblocks
    have hproper : node.frame.Proper := ⟨sub_pos.mp hw, sub_pos.mp hh⟩
    cases hnear : intersects node.frame (outset touchClearance rect) with
    | true =>
      refine h _ (List.mem_map.mpr ⟨(node, i), List.mem_filter.mpr ⟨?_, ?_⟩, rfl⟩)
      · exact List.mem_zipIdx_iff_getElem?.mpr hnode
      · dsimp only
        rw [decide_eq_true hw, decide_eq_true hh, hnear, hblocks]
        rfl
    | false =>
      exact le_distance hroot (by norm_num [touchClearance]) (outset_apart hdeep hproper hnear)
  · intro h f hf
    obtain ⟨⟨node, i⟩, hmem, rfl⟩ := List.mem_map.mp hf
    obtain ⟨hnode, hall⟩ := List.mem_filter.mp hmem
    simp only [Bool.and_eq_true, decide_eq_true_eq] at hall
    exact h i node (List.mem_zipIdx_iff_getElem?.mp hnode) hall.1.1.1 hall.1.1.2 hall.2

/-- One point of the grid. -/
theorem clearer_eq_none {rect : Rect K} {blockers : ℕ → Bool} {best : Option ((K × K) × K)}
    {p : K × K} : planner.clearer squareRoot rect blockers best p = none ↔
      best = none ∧ ¬ touchClearance ≤ planner.clearance squareRoot rect blockers p := by
  have hpos : (-1 : K) < touchClearance := by norm_num [touchClearance]
  unfold clearer
  dsimp only
  by_cases h : touchClearance ≤ planner.clearance squareRoot rect blockers p ∧
      (best.map Prod.snd).getD (-1) < planner.clearance squareRoot rect blockers p
  · rw [if_pos h]
    exact iff_of_false (Option.some_ne_none _) fun hnone => hnone.2 h.1
  · rw [if_neg h]
    refine ⟨fun hnone => ⟨hnone, fun hle => h ⟨hle, ?_⟩⟩, And.left⟩
    rw [hnone]
    exact hpos.trans_le hle

theorem foldl_clearer_eq_none {rect : Rect K} {blockers : ℕ → Bool} {points : List (K × K)}
    {best : Option ((K × K) × K)} :
    points.foldl (planner.clearer squareRoot rect blockers) best = none ↔
      best = none ∧
        ∀ p ∈ points, ¬ touchClearance ≤ planner.clearance squareRoot rect blockers p := by
  induction points generalizing best with
  | nil => simp
  | cons p rest ih =>
    rw [List.foldl_cons, ih, clearer_eq_none, List.forall_mem_cons, and_assoc]

omit [IsStrictOrderedRing K] in
theorem foldl_clearer_mem {rect : Rect K} {blockers : ℕ → Bool} {points : List (K × K)}
    {best : Option ((K × K) × K)} {b : (K × K) × K}
    (h : points.foldl (planner.clearer squareRoot rect blockers) best = some b) :
    best = some b ∨ b.1 ∈ points ∧
      touchClearance ≤ planner.clearance squareRoot rect blockers b.1 := by
  induction points generalizing best with
  | nil => exact .inl h
  | cons p rest ih =>
    rw [List.foldl_cons] at h
    rcases ih h with hbest | ⟨hmem, hclear⟩
    · unfold clearer at hbest
      dsimp only at hbest
      split_ifs at hbest with hbetter
      · obtain rfl := Option.some.inj hbest
        exact .inr ⟨List.mem_cons_self, hbetter.1⟩
      · exact .inl hbest
    · exact .inr ⟨List.mem_cons_of_mem _ hmem, hclear⟩

variable [FloorSemiring K]

/-- **The point found** is one of the grid, and clear. -/
theorem clearestPoint_some (hroot : IsRoot squareRoot) {rect : Rect K} {blockers : ℕ → Bool}
    {p : K × K} (h : planner.clearestPoint squareRoot rect blockers = some p) :
    p ∈ gridPoints rect ∧ planner.Clear squareRoot blockers p := by
  unfold clearestPoint at h
  split_ifs at h
  obtain ⟨b, hb, rfl⟩ := Option.map_eq_some_iff.mp h
  rcases foldl_clearer_mem hb with hnone | ⟨hmem, hclear⟩
  · cases hnone
  · exact ⟨hmem, ((le_clearance_iff hroot).mp hclear).2⟩

/-- **Nothing is missed**: without a point found, none of the grid is clear. -/
theorem clearestPoint_none (hroot : IsRoot squareRoot) {rect : Rect K} {blockers : ℕ → Bool} :
    planner.clearestPoint squareRoot rect blockers = none ↔
      ∀ p ∈ gridPoints rect, ¬ planner.Clear squareRoot blockers p := by
  unfold clearestPoint
  split_ifs with hsmall
  · refine iff_of_true rfl fun p hp => ?_
    obtain ⟨hleft, hright, htop, hbottom⟩ := deep_of_mem hp
    unfold width height at hsmall
    rcases hsmall with hsmall | hsmall <;> linarith
  · rw [Option.map_eq_none_iff, foldl_clearer_eq_none, and_iff_right rfl]
    refine forall₂_congr fun p hp => not_congr ?_
    rw [le_clearance_iff hroot, and_iff_right (deep_of_mem hp)]

/-! ### Rectangles that are shown -/

omit [Field K] [IsStrictOrderedRing K] [FloorSemiring K] in
theorem intersection_spec {r s common : Rect K} (h : intersection r s = some common) :
    common.Within r ∧ common.Within s ∧ common.left ≤ common.right ∧ common.top ≤ common.bottom := by
  obtain rfl := intersection_eq h
  unfold intersection at h
  dsimp only at h
  split_ifs at h with hnonneg
  exact ⟨Rect.meet_within_left, Rect.meet_within_right, hnonneg⟩

omit [Field K] [IsStrictOrderedRing K] [FloorSemiring K] in
theorem intersection_holds {r s t : Rect K} (hr : r.left ≤ r.right ∧ r.top ≤ r.bottom)
    (hs : r.Within s) (ht : r.Within t) :
    ∃ common, intersection s t = some common ∧ r.Within common := by
  have hmeet : r.Within (s.meet t) := Rect.within_meet_iff.mpr ⟨hs, ht⟩
  refine ⟨s.meet t, ?_, hmeet⟩
  unfold intersection
  dsimp only
  exact if_pos ⟨(hmeet.1.trans hr.1).trans hmeet.2.2.1, (hmeet.2.1.trans hr.2).trans hmeet.2.2.2⟩

omit [IsStrictOrderedRing K] [FloorSemiring K] in
/-- Clipping keeps whatever all of the frames hold, and nothing else. -/
theorem clippedToScrollers_holds {whole r : Rect K} {i : ℕ}
    (hr : r.left ≤ r.right ∧ r.top ≤ r.bottom) (hwhole : r.Within whole)
    (hframes : ∀ frame ∈ planner.analyzer.scrollerFrames i, r.Within frame) :
    ∃ clipped, planner.clippedToScrollers (some whole) i = some clipped ∧ r.Within clipped := by
  unfold clippedToScrollers
  generalize planner.analyzer.scrollerFrames i = frames at hframes
  induction frames generalizing whole with
  | nil => exact ⟨whole, rfl, hwhole⟩
  | cons frame frames ih =>
    obtain ⟨hframe, hrest⟩ := List.forall_mem_cons.mp hframes
    obtain ⟨common, hcommon, hwithin⟩ := intersection_holds hr hwhole hframe
    rw [List.foldl_cons, Option.bind_some, hcommon]
    exact ih hwithin hrest

omit [IsStrictOrderedRing K] [FloorSemiring K] in
theorem clippedToScrollers_spec {rect : Option (Rect K)} {i : ℕ} {clipped : Rect K}
    (h : planner.clippedToScrollers rect i = some clipped) :
    ∃ whole, rect = some whole ∧ clipped.Within whole ∧
      ((whole.left ≤ whole.right ∧ whole.top ≤ whole.bottom) →
        clipped.left ≤ clipped.right ∧ clipped.top ≤ clipped.bottom) ∧
      ∀ frame ∈ planner.analyzer.scrollerFrames i, clipped.Within frame := by
  unfold clippedToScrollers at h
  generalize planner.analyzer.scrollerFrames i = frames at h
  induction frames generalizing rect with
  | nil => exact ⟨clipped, h, Rect.Within.refl _, id, fun _ hf => absurd hf List.not_mem_nil⟩
  | cons frame frames ih =>
    obtain ⟨part, hpart, hwithin, hnonneg, hframes⟩ := ih h
    obtain ⟨whole, rfl, hcommon⟩ := Option.bind_eq_some_iff.mp hpart
    obtain ⟨hwhole, hframe, hpartNonneg⟩ := intersection_spec hcommon
    exact ⟨whole, rfl, hwithin.trans hwhole, fun _ => hnonneg hpartNonneg,
      List.forall_mem_cons.mpr ⟨hwithin.trans hframe, hframes⟩⟩

omit [IsStrictOrderedRing K] [FloorSemiring K] in
theorem shown_spec {area shown : Rect K} {i around : ℕ}
    (h : planner.shown area i around = some shown) :
    ∃ node, planner.nodes[i]? = some node ∧ shown.Within node.frame ∧ shown.Within area ∧
      (shown.left ≤ shown.right ∧ shown.top ≤ shown.bottom) ∧
      ∀ frame ∈ planner.analyzer.scrollerFrames around, shown.Within frame := by
  obtain ⟨whole, hwhole, hwithin, hnonneg, hframes⟩ := clippedToScrollers_spec h
  obtain ⟨node, hnode, hcommon⟩ := Option.bind_eq_some_iff.mp hwhole
  obtain ⟨hframe, harea, hwholeNonneg⟩ := intersection_spec hcommon
  exact ⟨node, hnode, hwithin.trans hframe, hwithin.trans harea, hnonneg hwholeNonneg, hframes⟩

omit [Field K] [LinearOrder K] [IsStrictOrderedRing K] [FloorSemiring K] in
theorem ancestors_subset {a : Analyzer K} {i j : ℕ} (h : j ∈ a.ancestors i) :
    a.ancestors j ⊆ a.ancestors i := by
  induction i using Nat.strong_induction_on with
  | _ i ih =>
    rw [a.ancestors_eq i] at h ⊢
    cases hp : a.parentOf i with
    | none =>
      rw [hp] at h
      cases h
    | some p =>
      rw [hp, Option.elim_some] at h
      rw [Option.elim_some]
      rcases List.mem_cons.mp h with rfl | h
      · exact List.subset_cons_self _ _
      · exact fun k hk => List.mem_cons_of_mem _ (ih p (a.parentOf_lt hp) h hk)

omit [IsStrictOrderedRing K] [FloorSemiring K] in
/-- What is shown beside the field of a container around it is drawn of the container. -/
theorem shown_drawn {area rect : Rect K} {container field : ℕ}
    (hcontainer : container ∈ planner.analyzer.ancestors field)
    (harea : area.Within planner.screen) (h : planner.shown area container field = some rect) :
    ∃ drawn, planner.shown planner.screen container container = some drawn ∧ rect.Within drawn := by
  obtain ⟨node, hnode, hframe, hwithin, hnonneg, hframes⟩ := shown_spec h
  obtain ⟨whole, hwhole, hin⟩ := intersection_holds hnonneg hframe (hwithin.trans harea)
  have hsub : planner.analyzer.scrollerFrames container ⊆
      planner.analyzer.scrollerFrames field := by
    intro frame hf
    obtain ⟨n, hn, rfl⟩ := List.mem_map.mp hf
    obtain ⟨hmem, htype⟩ := List.mem_filter.mp hn
    obtain ⟨j, hj, hjn⟩ := List.mem_filterMap.mp hmem
    exact List.mem_map_of_mem (List.mem_filter.mpr
      ⟨List.mem_filterMap.mpr ⟨j, ancestors_subset hcontainer hj, hjn⟩, htype⟩)
  obtain ⟨drawn, hdrawn, hrect⟩ := clippedToScrollers_holds hnonneg hin
    fun frame hf => hframes frame (hsub hf)
  refine ⟨drawn, ?_, hrect⟩
  rw [shown, hnode, Option.bind_some, hwhole, hdrawn]

omit [FloorSemiring K] in
/-- The area is the screen's below the status bar and above the keyboard. -/
theorem touchableArea_spec {area : Rect K} (h : planner.touchableArea = some area) :
    ∃ keyboard, planner.keyboardRegion = some keyboard ∧
      area = ⟨planner.screen.left, planner.screen.top + statusBarAllowance, planner.screen.right,
        min keyboard.top planner.screen.bottom⟩ ∧ area.Within planner.screen := by
  obtain ⟨keyboard, hkeyboard, harea⟩ := Option.bind_eq_some_iff.mp h
  dsimp only at harea
  split_ifs at harea with hroom
  have hwidth : 0 ≤ width planner.screen := sub_nonneg.mpr planner.standardized.1
  rw [cgRect_eq hwidth (sub_nonneg.mpr (le_of_lt hroom)), add_sub_cancel, width,
    add_sub_cancel] at harea
  have hbar : (0 : K) ≤ statusBarAllowance := by norm_num [statusBarAllowance]
  obtain rfl := Option.some.inj harea
  exact ⟨keyboard, hkeyboard, rfl, le_rfl, le_add_of_nonneg_right hbar, le_rfl, min_le_right _ _⟩

/-! ### What a touch presses -/

/-- A point away from every node that is neither empty nor plain, but for the exceptions. -/
def ClearOf (planner : KeyboardDismissPlanner K) (squareRoot : K → K) (exceptions : List ℕ)
    (p : K × K) : Prop :=
  ∀ i node, planner.nodes[i]? = some node → 0 < width node.frame → 0 < height node.frame →
    planner.isPlain i = false → i ∉ exceptions → touchClearance ≤ distance squareRoot p node.frame

omit [IsStrictOrderedRing K] [FloorSemiring K] in
theorem clear_congr {blockers : ℕ → Bool} {exceptions : List ℕ}
    (h : ∀ i, blockers i = true ↔ planner.isPlain i = false ∧ i ∉ exceptions) (p : K × K) :
    planner.Clear squareRoot blockers p ↔ planner.ClearOf squareRoot exceptions p := by
  refine forall_congr' fun i => forall_congr' fun node => forall₃_congr fun _ _ _ => ?_
  rw [h, and_imp]

omit [IsStrictOrderedRing K] [FloorSemiring K] in
theorem clear_tapBlockers {field : ℕ} (p : K × K) :
    planner.Clear squareRoot (planner.tapBlockers field) p ↔
      planner.ClearOf squareRoot (planner.transparent field) p := by
  refine clear_congr (fun i => ?_) p
  rw [tapBlockers, Bool.and_eq_true, Bool.not_eq_true', Bool.not_eq_true',
    decide_eq_false_iff_not, and_comm]

omit [IsStrictOrderedRing K] [FloorSemiring K] in
theorem clear_dragBlockers {scroll : ℕ} (p : K × K) :
    planner.Clear squareRoot (planner.dragBlockers scroll) p ↔
      planner.ClearOf squareRoot (scroll :: planner.transparent scroll) p := by
  refine clear_congr (fun i => ?_) p
  rw [dragBlockers, Bool.and_eq_true, Bool.not_eq_true', Bool.not_eq_true', Bool.or_eq_false_iff,
    decide_eq_false_iff_not, decide_eq_false_iff_not, List.mem_cons, not_or, and_comm]

/-- A point below the status bar and above the keyboard. -/
def BetweenBars (planner : KeyboardDismissPlanner K) (p : K × K) : Prop :=
  planner.screen.top + statusBarAllowance < p.2 ∧
    ∃ keyboard, planner.keyboardRegion = some keyboard ∧ p.2 < keyboard.top

/-- A tap in a container of the field that does not fill the screen, on nothing. -/
structure TapSafe (planner : KeyboardDismissPlanner K) (squareRoot : K → K) (field container : ℕ)
    (p : K × K) : Prop where
  between : planner.BetweenBars p
  own : container ∈ planner.analyzer.ancestors field
  notFull : planner.endsScope container = false
  inside : ∃ drawn, planner.shown planner.screen container container = some drawn ∧
    drawn.Contains p.1 p.2
  clear : planner.ClearOf squareRoot (planner.transparent field) p

/-- A drag in a scroll view around the field, on nothing, that stays where it is visible. -/
structure DragSafe (planner : KeyboardDismissPlanner K) (squareRoot : K → K) (field scroll : ℕ)
    (p : K × K) : Prop where
  between : planner.BetweenBars p
  own : scroll ∈ planner.analyzer.ancestors field ∧
    planner.hasType draggableScrollerTypes scroll = true
  inside : ∃ area visible, planner.touchableArea = some area ∧
    planner.shown area scroll scroll = some visible ∧
    (∀ s, 0 ≤ s → s ≤ planner.dragX → visible.Contains (p.1 - s) p.2) ∧
    ∀ s, 0 ≤ s → s ≤ planner.dragY → visible.Contains p.1 (p.2 - s)
  clear : planner.ClearOf squareRoot (scroll :: planner.transparent scroll) p

/-- Where a drag has room to end. -/
def room (visible : Rect K) (dragX dragY : K) : Rect K :=
  ⟨visible.left + dragX, visible.top + dragY, visible.right, visible.bottom⟩

/-- The touches press nothing, and none is missed. -/
structure PressesNothing (planner : KeyboardDismissPlanner K) (squareRoot : K → K)
    (focusedFrame : Option (Rect K)) : Prop where
  tap : ∀ container p, planner.blankSpot squareRoot focusedFrame = some (container, p) →
    ∃ field, planner.fieldIndex focusedFrame = some field ∧
      planner.TapSafe squareRoot field container p
  noTap : planner.blankPoint squareRoot focusedFrame = none →
    ∀ area field container rect, planner.touchableArea = some area →
      planner.fieldIndex focusedFrame = some field → container ∈ planner.scopeAncestors field →
      planner.shown area container field = some rect →
      ∀ p ∈ gridPoints rect, ¬ planner.ClearOf squareRoot (planner.transparent field) p
  drag : ∀ scroll p, planner.scrollSwipe squareRoot focusedFrame = some (scroll, p) →
    ∃ field, planner.fieldIndex focusedFrame = some field ∧
      planner.DragSafe squareRoot field scroll p
  noDrag : planner.scrollSwipeStart squareRoot focusedFrame = none →
    ∀ area field scroll visible, planner.touchableArea = some area →
      planner.fieldIndex focusedFrame = some field → scroll ∈ planner.analyzer.ancestors field →
      planner.hasType draggableScrollerTypes scroll = true →
      planner.draggable area scroll = some visible →
      ∀ p ∈ gridPoints (room visible planner.dragX planner.dragY),
        ¬ planner.ClearOf squareRoot (scroll :: planner.transparent scroll) p

/-- The scroll view has a clear point where its drags would start. -/
def HasStart (planner : KeyboardDismissPlanner K) (squareRoot : K → K) (area : Rect K)
    (scroll : ℕ) : Prop :=
  ∃ visible, planner.draggable area scroll = some visible ∧
    ∃ p ∈ gridPoints (dragStarts visible planner.dragX planner.dragY),
      planner.ClearOf squareRoot (scroll :: planner.transparent scroll) p

/-- A scroll view that is smaller than the drag has no clear point beside it, or a nearer one has a
    start. -/
def RoomForDrags (planner : KeyboardDismissPlanner K) (squareRoot : K → K)
    (focusedFrame : Option (Rect K)) : Prop :=
  ∀ area field nearer scroll farther visible, planner.touchableArea = some area →
    planner.fieldIndex focusedFrame = some field →
    (planner.analyzer.ancestors field).filter (planner.hasType draggableScrollerTypes) =
      nearer ++ scroll :: farther →
    planner.draggable area scroll = some visible →
    width visible < planner.dragX ∨ height visible < planner.dragY →
    (∃ s ∈ nearer, planner.HasStart squareRoot area s) ∨ ¬ planner.HasStart squareRoot area scroll

/-! ### The tap -/

theorem blankSpot_some (hroot : IsRoot squareRoot) {focusedFrame : Option (Rect K)} {container : ℕ}
    {p : K × K} (h : planner.blankSpot squareRoot focusedFrame = some (container, p)) :
    ∃ field, planner.fieldIndex focusedFrame = some field ∧
      planner.TapSafe squareRoot field container p := by
  obtain ⟨area, harea, h⟩ := Option.bind_eq_some_iff.mp h
  obtain ⟨field, hfield, h⟩ := Option.bind_eq_some_iff.mp h
  obtain ⟨i, hi, h⟩ := List.exists_of_findSome?_eq_some h
  obtain ⟨rect, hrect, h⟩ := Option.bind_eq_some_iff.mp h
  obtain ⟨q, hq, hpair⟩ := Option.map_eq_some_iff.mp h
  obtain ⟨rfl, rfl⟩ := Prod.mk.inj hpair
  obtain ⟨hgrid, hclear⟩ := clearestPoint_some hroot hq
  obtain ⟨hleft, hright, htop, hbottom⟩ := deep_of_mem hgrid
  obtain ⟨keyboard, hkeyboard, rfl, hscreen⟩ := touchableArea_spec harea
  have hancestor := List.takeWhile_subset _ hi
  have hscope := List.mem_takeWhile_imp hi
  obtain ⟨drawn, hdrawn, hwithin⟩ := shown_drawn hancestor hscreen hrect
  obtain ⟨-, -, -, ⟨-, hareaTop, -, hareaBottom⟩, -, -⟩ := shown_spec hrect
  have hpos : (0 : K) < touchClearance := by norm_num [touchClearance]
  dsimp only at hareaTop hareaBottom
  refine ⟨field, hfield, ⟨?_, keyboard, hkeyboard, ?_⟩, hancestor, ?_, ⟨drawn, hdrawn, ?_⟩,
    (clear_tapBlockers q).mp hclear⟩
  · linarith
  · have hkeys := hareaBottom.trans (min_le_left _ _)
    linarith
  · simpa using hscope
  · exact hwithin.contains ⟨by linarith, by linarith, by linarith, by linarith⟩

theorem blankPoint_none (hroot : IsRoot squareRoot) {focusedFrame : Option (Rect K)}
    (h : planner.blankPoint squareRoot focusedFrame = none) {area rect : Rect K}
    {field container : ℕ} (harea : planner.touchableArea = some area)
    (hfield : planner.fieldIndex focusedFrame = some field)
    (hcontainer : container ∈ planner.scopeAncestors field)
    (hrect : planner.shown area container field = some rect) {p : K × K}
    (hp : p ∈ gridPoints rect) : ¬ planner.ClearOf squareRoot (planner.transparent field) p := by
  rw [blankPoint, Option.map_eq_none_iff, blankSpot, harea, Option.bind_some, hfield,
    Option.bind_some] at h
  have hnone := List.findSome?_eq_none_iff.mp h container hcontainer
  rw [hrect, Option.bind_some, Option.map_eq_none_iff, clearestPoint_none hroot] at hnone
  rw [← clear_tapBlockers]
  exact hnone p hp

/-! ### The drag -/

omit [FloorSemiring K] in
theorem drag_nonneg : 0 ≤ planner.dragX ∧ 0 ≤ planner.dragY := by
  have hfraction : (0 : K) ≤ swipeFraction := by norm_num [swipeFraction]
  exact ⟨mul_nonneg (sub_nonneg.mpr planner.standardized.1) hfraction,
    mul_nonneg (sub_nonneg.mpr planner.standardized.2) hfraction⟩

omit [FloorSemiring K] in
/-- With room for the drag, its starts are those from which it ends in the scroll view. -/
theorem dragStarts_of_room {visible : Rect K} {dragX dragY : K} (hx : dragX ≤ width visible)
    (hy : dragY ≤ height visible) : dragStarts visible dragX dragY = room visible dragX dragY := by
  rw [dragStarts, cgRect_eq (sub_nonneg.mpr hx) (sub_nonneg.mpr hy), room]
  unfold width height
  congr 1 <;> ring

omit [FloorSemiring K] in
/-- Without, they are beside it. -/
theorem beside_of_deep {visible : Rect K} {dragX dragY : K} {p : K × K}
    (hsmall : width visible < dragX ∨ height visible < dragY)
    (h : Deep (dragStarts visible dragX dragY) p) :
    visible.right ≤ p.1 ∨ visible.bottom ≤ p.2 := by
  obtain ⟨hleft, -, htop, -⟩ := h
  have hpos : (0 : K) < touchClearance := by norm_num [touchClearance]
  unfold dragStarts cgRect width height at hleft htop
  unfold width height at hsmall
  dsimp only at hleft htop
  rcases hsmall with hsmall | hsmall
  · rw [min_eq_right (by linarith)] at hleft
    exact .inl (by linarith)
  · rw [min_eq_right (by linarith)] at htop
    exact .inr (by linarith)

theorem dragStart_some (hroot : IsRoot squareRoot) {scroll : ℕ} {visible : Rect K} {dragX dragY : K}
    {p : K × K} (h : planner.dragStart squareRoot scroll visible dragX dragY = some p) :
    p ∈ gridPoints (dragStarts visible dragX dragY) ∧
      planner.ClearOf squareRoot (scroll :: planner.transparent scroll) p := by
  unfold dragStart at h
  dsimp only at h
  split_ifs at h
  obtain ⟨hgrid, hclear⟩ := clearestPoint_some hroot h
  exact ⟨hgrid, (clear_dragBlockers p).mp hclear⟩

theorem dragStart_none (hroot : IsRoot squareRoot) {scroll : ℕ} {visible : Rect K}
    {dragX dragY : K} : planner.dragStart squareRoot scroll visible dragX dragY = none ↔
      ∀ p ∈ gridPoints (dragStarts visible dragX dragY),
        ¬ planner.ClearOf squareRoot (scroll :: planner.transparent scroll) p := by
  unfold dragStart
  dsimp only
  split_ifs with hroom
  · rw [clearestPoint_none hroot]
    exact forall₂_congr fun p _ => not_congr (clear_dragBlockers p)
  · refine iff_of_true rfl fun p hp => absurd ?_ hroom
    obtain ⟨hleft, hright, htop, hbottom⟩ := deep_of_mem hp
    have hpos : (0 : K) < touchClearance := by norm_num [touchClearance]
    unfold width height
    exact ⟨by linarith, by linarith⟩

/-- The start that is found in one scroll view. -/
def startIn (planner : KeyboardDismissPlanner K) (squareRoot : K → K) (area : Rect K)
    (scroll : ℕ) : Option (ℕ × (K × K)) :=
  (planner.draggable area scroll).bind fun visible =>
    (planner.dragStart squareRoot scroll visible planner.dragX planner.dragY).map (scroll, ·)

theorem startIn_none (hroot : IsRoot squareRoot) {area : Rect K} {scroll : ℕ} :
    planner.startIn squareRoot area scroll = none ↔ ¬ planner.HasStart squareRoot area scroll := by
  unfold startIn HasStart
  cases hvisible : planner.draggable area scroll with
  | none => exact iff_of_true rfl fun ⟨_, hsome, _⟩ => by cases hsome
  | some visible =>
    rw [Option.bind_some, Option.map_eq_none_iff, dragStart_none hroot]
    constructor
    · rintro h ⟨_, hsome, p, hp, hclear⟩
      obtain rfl := Option.some.inj hsome
      exact h p hp hclear
    · exact fun h p hp hclear => h ⟨visible, rfl, p, hp, hclear⟩

omit [IsStrictOrderedRing K] in
theorem scrollSwipe_eq {focusedFrame : Option (Rect K)} {area : Rect K} {field : ℕ}
    (harea : planner.touchableArea = some area)
    (hfield : planner.fieldIndex focusedFrame = some field) :
    planner.scrollSwipe squareRoot focusedFrame =
      ((planner.analyzer.ancestors field).filter
        (planner.hasType draggableScrollerTypes)).findSome? (planner.startIn squareRoot area) := by
  rw [scrollSwipe, harea, Option.bind_some, hfield, Option.bind_some]
  rfl

/-- A drag from where it has room to end is safe. -/
theorem dragSafe_of_room {area visible : Rect K} {field scroll : ℕ} {p : K × K}
    (harea : planner.touchableArea = some area)
    (hscroll : scroll ∈ planner.analyzer.ancestors field ∧
      planner.hasType draggableScrollerTypes scroll = true)
    (hvisible : planner.shown area scroll scroll = some visible)
    (hgrid : p ∈ gridPoints (room visible planner.dragX planner.dragY))
    (hclear : planner.ClearOf squareRoot (scroll :: planner.transparent scroll) p) :
    planner.DragSafe squareRoot field scroll p := by
  obtain ⟨hleft, hright, htop, hbottom⟩ := deep_of_mem hgrid
  obtain ⟨keyboard, hkeyboard, rfl, hscreen⟩ := touchableArea_spec harea
  obtain ⟨-, -, -, ⟨-, hareaTop, -, hareaBottom⟩, -, -⟩ := shown_spec hvisible
  obtain ⟨hx, hy⟩ := @drag_nonneg K _ _ planner _
  have hpos : (0 : K) < touchClearance := by norm_num [touchClearance]
  dsimp only [room] at hleft hright htop hbottom hareaTop hareaBottom
  refine ⟨⟨?_, keyboard, hkeyboard, ?_⟩, hscroll, ⟨_, visible, harea, hvisible, ?_, ?_⟩, hclear⟩
  · linarith
  · have hkeys := hareaBottom.trans (min_le_left _ _)
    linarith
  · exact fun s hs hlast => ⟨by linarith, by linarith, by linarith, by linarith⟩
  · exact fun s hs hlast => ⟨by linarith, by linarith, by linarith, by linarith⟩

omit [IsStrictOrderedRing K] [FloorSemiring K] in
theorem shown_of_draggable {area visible : Rect K} {scroll : ℕ}
    (h : planner.draggable area scroll = some visible) :
    planner.shown area scroll scroll = some visible := by
  unfold draggable at h
  split_ifs at h
  exact (Option.filter_eq_some_iff.mp h).1

/-- **The touches press nothing** exactly where no drag is looked for beside a scroll view that is
    smaller than it. -/
theorem touches_press_nothing_iff (planner : KeyboardDismissPlanner K) (hroot : IsRoot squareRoot)
    (focusedFrame : Option (Rect K)) :
    planner.PressesNothing squareRoot focusedFrame ↔
      planner.RoomForDrags squareRoot focusedFrame := by
  constructor
  · intro hsafe area field nearer scroll farther visible harea hfield hsplit hvisible hsmall
    by_contra hstarts
    obtain ⟨hnearer, hstart⟩ := not_or.mp hstarts
    cases hfound : planner.startIn squareRoot area scroll with
    | none => exact hstart ((startIn_none hroot).mp hfound)
    | some found =>
      obtain ⟨v, hv, hmap⟩ := Option.bind_eq_some_iff.mp hfound
      obtain ⟨q, hq, rfl⟩ := Option.map_eq_some_iff.mp hmap
      obtain rfl := Option.some.inj (hv.symm.trans hvisible)
      have hswipe : planner.scrollSwipe squareRoot focusedFrame = some (scroll, q) := by
        rw [scrollSwipe_eq harea hfield, hsplit, List.findSome?_append,
          List.findSome?_eq_none_iff.mpr, Option.none_or, List.findSome?_cons, hfound]
        exact fun s hs => (startIn_none hroot).mpr fun h => hnearer ⟨s, hs, h⟩
      obtain ⟨_, _, hdrag⟩ := hsafe.drag scroll q hswipe
      obtain ⟨area', visible', harea', hvisible', hacross, -⟩ := hdrag.inside
      obtain rfl := Option.some.inj (harea'.symm.trans harea)
      obtain rfl := Option.some.inj (hvisible'.symm.trans (shown_of_draggable hv))
      obtain ⟨-, hright, -, hbottom⟩ := hacross 0 le_rfl drag_nonneg.1
      rw [sub_zero] at hright
      obtain ⟨hgrid, -⟩ := dragStart_some hroot hq
      rcases beside_of_deep hsmall (deep_of_mem hgrid) with hbeside | hbeside
      · exact not_lt.mpr hbeside hright
      · exact not_lt.mpr hbeside hbottom
  · intro hroom
    refine ⟨fun container p => blankSpot_some hroot, fun h area field container rect harea hfield
      hcontainer hrect p => blankPoint_none hroot h harea hfield hcontainer hrect, ?_, ?_⟩
    · intro scroll p h
      obtain ⟨area, harea, h'⟩ := Option.bind_eq_some_iff.mp h
      obtain ⟨field, hfield, -⟩ := Option.bind_eq_some_iff.mp h'
      rw [scrollSwipe_eq harea hfield] at h
      obtain ⟨nearer, s, farther, hsplit, hfound, hnone⟩ := List.findSome?_eq_some_iff.mp h
      obtain ⟨visible, hvisible, hmap⟩ := Option.bind_eq_some_iff.mp hfound
      obtain ⟨q, hq, hpair⟩ := Option.map_eq_some_iff.mp hmap
      obtain ⟨rfl, rfl⟩ := Prod.mk.inj hpair
      obtain ⟨hgrid, hclear⟩ := dragStart_some hroot hq
      have hscroll := List.mem_filter.mp (hsplit ▸ List.mem_append_right nearer List.mem_cons_self)
      have hlarge : planner.dragX ≤ width visible ∧ planner.dragY ≤ height visible := by
        by_contra hsmall
        rcases hroom area field nearer _ farther visible harea hfield hsplit hvisible
            (by rwa [not_and_or, not_le, not_le] at hsmall) with ⟨s, hs, hstart⟩ | hstart
        · exact (startIn_none hroot).mp (hnone s hs) hstart
        · exact hstart ⟨visible, hvisible, q, hgrid, hclear⟩
      rw [dragStarts_of_room hlarge.1 hlarge.2] at hgrid
      exact ⟨field, hfield, dragSafe_of_room harea hscroll (shown_of_draggable hvisible) hgrid hclear⟩
    · intro h area field scroll visible harea hfield hancestor htype hvisible p hp
      rw [scrollSwipeStart, Option.map_eq_none_iff, scrollSwipe_eq harea hfield] at h
      have hnone := List.findSome?_eq_none_iff.mp h scroll (List.mem_filter.mpr ⟨hancestor, htype⟩)
      intro hclear
      refine (startIn_none hroot).mp hnone ⟨visible, hvisible, p, ?_, hclear⟩
      obtain ⟨hleft, hright, htop, hbottom⟩ := deep_of_mem hp
      have hpos : (0 : K) < touchClearance := by norm_num [touchClearance]
      dsimp only [room] at hleft hright htop hbottom
      rwa [dragStarts_of_room]
      · unfold width
        linarith
      · unfold height
        linarith

end KeyboardDismissPlanner

/-! ### A scroll view smaller than the drag -/

/-- A field in a scroll view 45 points wide, on a screen of which 3% are 61 points. -/
def narrowScroll (K : Type) [Field K] [LinearOrder K] [IsStrictOrderedRing K] :
    KeyboardDismissPlanner K where
  analyzer :=
    { nodes :=
        [⟨.application, "", "", ⟨0, 0, 2048, 1536⟩, 4, none, none⟩,
         ⟨.scrollView, "", "", ⟨100, 200, 145, 600⟩, 3, some 0, none⟩,
         ⟨.textField, "", "", ⟨100, 200, 145, 230⟩, 3, some 1, none⟩,
         ⟨.keyboard, "", "", ⟨0, 1000, 2048, 1536⟩, 4, some 0, none⟩]
      screen := ⟨0, 0, 2048, 1536⟩
      snapshotFrames := [⟨0, 0, 2048, 1536⟩, ⟨100, 200, 145, 600⟩, ⟨100, 200, 145, 230⟩,
        ⟨0, 1000, 2048, 1536⟩]
      parent_lt := by
        intro i node p hnode hparent
        rcases i with _ | _ | _ | _ | i
        · obtain rfl := Option.some.inj hnode
          cases hparent
        · obtain rfl := Option.some.inj hnode
          obtain rfl := Option.some.inj hparent
          exact Nat.zero_lt_one
        · obtain rfl := Option.some.inj hnode
          obtain rfl := Option.some.inj hparent
          exact Nat.one_lt_two
        · obtain rfl := Option.some.inj hnode
          obtain rfl := Option.some.inj hparent
          exact Nat.zero_lt_succ 2
        · cases hnode
      frames_length := rfl }
  standardized := by constructor <;> norm_num

theorem touches_press_nothing_iff_narrowScroll :
    (narrowScroll ℝ).PressesNothing Real.sqrt (some ⟨100, 200, 145, 230⟩) ↔
      (narrowScroll ℝ).RoomForDrags Real.sqrt (some ⟨100, 200, 145, 230⟩) :=
  KeyboardDismissPlanner.touches_press_nothing_iff (narrowScroll ℝ)
    (fun x hx => ⟨Real.sqrt_nonneg x, Real.mul_self_sqrt hx⟩) _

/-- The root of a perfect square. -/
def squareRootFloor (x : ℚ) : ℚ := Nat.sqrt ⌊x⌋.toNat

/-- The drag starts beside the scroll view, and never is in it. -/
theorem not_pressesNothing :
    ¬ (narrowScroll ℚ).PressesNothing squareRootFloor (some ⟨100, 200, 145, 230⟩) := by
  intro h
  have hswipe : (narrowScroll ℚ).scrollSwipe squareRootFloor (some ⟨100, 200, 145, 230⟩) =
      some (1, (153, 6352 / 25)) := by decide +kernel
  have harea : (narrowScroll ℚ).touchableArea = some ⟨0, 60, 2048, 1000⟩ := by decide +kernel
  have hshown : (narrowScroll ℚ).shown ⟨0, 60, 2048, 1000⟩ 1 1 = some ⟨100, 200, 145, 600⟩ := by
    decide +kernel
  obtain ⟨_, -, hsafe⟩ := h.drag _ _ hswipe
  obtain ⟨area, visible, harea', hshown', hacross, -⟩ := hsafe.inside
  obtain rfl := Option.some.inj (harea'.symm.trans harea)
  obtain rfl := Option.some.inj (hshown'.symm.trans hshown)
  have hright := (hacross 0 le_rfl KeyboardDismissPlanner.drag_nonneg.1).2.1
  norm_num at hright

end Tapsmith.Ios
