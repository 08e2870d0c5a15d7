import Mathlib.Algebra.Order.Field.Basic
import Mathlib.Data.List.Infix
import Mathlib.Tactic.Linarith
import Tapsmith.Lib.Rect

namespace Tapsmith.Ios.Occlusion

open Lib

/-!
# The touch verdict on iOS

`OcclusionAnalyzer.swift`: whether a touch on an element would land on it, from one snapshot of the
tree. Frames are standardised rectangles over an ordered field.

* `Analyzer` — the snapshot; `analyze` — the verdict;
* `clippedPart` — the target's part on screen, inside its scrollers;
* `clips` — the keyboard and the bars over the target, cut out by `cutClips` one after another;
* `analyze_exact_iff` — what the verdict says about the clips, and in which order it says so.
-/

/-! ### Geometry -/

section

variable {K : Type} [Field K] [LinearOrder K]

def width (r : Rect K) : K := r.right - r.left

def height (r : Rect K) : K := r.bottom - r.top

/-- `CGRect(x:y:width:height:)`, standardised -/
def cgRect (x y width height : K) : Rect K :=
  ⟨min x (x + width), min y (y + height), max x (x + width), max y (y + height)⟩

/-- `CGRect.intersection`; `none` is the null rectangle. -/
def intersection (r s : Rect K) : Option (Rect K) :=
  let common := r.meet s
  if common.left ≤ common.right ∧ common.top ≤ common.bottom then some common else none

/-- `CGRect.contains` of a point -/
def containsPoint (r : Rect K) (p : K × K) : Bool :=
  r.left ≤ p.1 && p.1 < r.right && r.top ≤ p.2 && p.2 < r.bottom

/-- `CGRect.contains` of a rectangle -/
def containsRect (r s : Rect K) : Bool :=
  r.left ≤ s.left && r.top ≤ s.top && s.right ≤ r.right && s.bottom ≤ r.bottom

def midpoint (r : Rect K) : K × K := ((r.left + r.right) / 2, (r.top + r.bottom) / 2)

def minVisibleExtent : K := 2

def isTouchable (r : Rect K) : Bool := minVisibleExtent ≤ width r && minVisibleExtent ≤ height r

def area (r : Rect K) : K := width r * height r

/-- The parts of `rect` above, below, left and right of the overlap that are not empty. -/
def pieces (rect overlap : Rect K) : List (Rect K) :=
  [cgRect rect.left rect.top (width rect) (overlap.top - rect.top),
   cgRect rect.left overlap.bottom (width rect) (rect.bottom - overlap.bottom),
   cgRect rect.left rect.top (overlap.left - rect.left) (height rect),
   cgRect overlap.right rect.top (rect.right - overlap.right) (height rect)].filter
    fun r => 0 < width r && 0 < height r

/-- The first of the pieces with the largest area. -/
def maxByArea : List (Rect K) → Option (Rect K)
  | [] => none
  | p :: rest => some (rest.foldl (fun best q => if area best < area q then q else best) p)

/-- The largest piece of `rect` left after removing `cut`. -/
def subtract (cut rect : Rect K) : Option (Rect K) :=
  ((intersection rect cut).filter fun overlap => 0 < width overlap && 0 < height overlap).elim
    (some rect) fun overlap => maxByArea (pieces rect overlap)

/-- Whether a live frame and one of the snapshot are the same up to rounding. -/
def framesMatch (a b : Rect K) : Bool :=
  |a.left - b.left| ≤ 1 && |a.top - b.top| ≤ 1 && |width a - width b| ≤ 1 &&
    |height a - height b| ≤ 1

end

/-! ### The snapshot -/

inductive ElementType
  | application | window | keyboard | navigationBar | tabBar | toolbar
  | scrollView | table | collectionView | webView | staticText | link | other
  | button | textField | secureTextField | textView | searchField | switch | toggle | slider
  | stepper | segmentedControl | picker | pickerWheel | cell | checkBox | radioButton | menuItem
  | menuButton | popUpButton | tab | alert | sheet | dialog | popover
  | unlisted (rawValue : ℕ)
deriving DecidableEq

def barTypes : List ElementType := [.navigationBar, .tabBar, .toolbar]

def scrollerTypes : List ElementType := [.scrollView, .table, .collectionView, .webView]

def textRunTypes : List ElementType := [.staticText, .link]

def interactiveTypes : List ElementType :=
  [.button, .link, .textField, .secureTextField, .textView, .searchField, .switch, .toggle,
   .slider, .stepper, .segmentedControl, .picker, .pickerWheel, .cell, .checkBox, .radioButton,
   .menuItem, .menuButton, .popUpButton, .tab, .alert, .sheet, .dialog, .popover]

structure Node (K : Type) where
  elementType : ElementType
  label : String
  identifier : String
  frame : Rect K
  /-- one past the index of the last node of the subtree -/
  subtreeEnd : ℕ
  parent : Option ℕ
  /-- the top-level window the node is in -/
  window : Option ℕ

/-- The target as last read. What is not known is `none`, and `isLive` is false when the fields
    come from when the element was found. -/
structure Target (K : Type) where
  frame : Rect K
  elementType : Option ElementType
  label : Option String
  identifier : Option String
  isLive : Bool

structure Analyzer (K : Type) where
  nodes : List (Node K)
  screen : Rect K
  /-- each node's frame as the snapshot reported it -/
  snapshotFrames : List (Rect K)
  /-- the walk is pre-order -/
  parent_lt : ∀ (i : ℕ) (node : Node K) (p : ℕ), nodes[i]? = some node → node.parent = some p → p < i
  frames_length : snapshotFrames.length = nodes.length

inductive Verdict (K : Type)
  | clear (point : K × K) (visible : Rect K)
  | covered (cover : String)
  | offScreen
  | unlocated (point : K × K) (visible : Rect K)
  | gone
deriving DecidableEq

/-- A part of the screen that is not the target's, and what it is called. -/
structure Clip (K : Type) where
  rect : Rect K
  name : String
deriving DecidableEq

namespace Analyzer

variable {K : Type} [Field K] [LinearOrder K] (a : Analyzer K)

def parentOf (i : ℕ) : Option ℕ := a.nodes[i]?.bind Node.parent

/-- The loop over the parents. -/
def ancestorsFrom : ℕ → Option ℕ → List ℕ
  | fuel + 1, some p => p :: ancestorsFrom fuel (a.parentOf p)
  | _, _ => []

/-- The indices of the nodes around a node, innermost first. -/
def ancestors (i : ℕ) : List ℕ := a.ancestorsFrom i (a.parentOf i)

omit [Field K] [LinearOrder K] in
theorem parentOf_lt {i p : ℕ} (h : a.parentOf i = some p) : p < i := by
  obtain ⟨node, hnode, hparent⟩ := Option.bind_eq_some_iff.mp h
  exact a.parent_lt i node p hnode hparent

omit [Field K] [LinearOrder K] in
/-- Any fuel from the index on is enough. -/
theorem ancestorsFrom_eq {fuel i : ℕ} (h : i ≤ fuel) :
    a.ancestorsFrom fuel (a.parentOf i) = a.ancestors i := by
  induction i using Nat.strong_induction_on generalizing fuel with
  | _ i ih =>
    unfold ancestors
    cases hp : a.parentOf i with
    | none => cases fuel <;> cases i <;> rfl
    | some p =>
      have hlt := a.parentOf_lt hp
      obtain ⟨i, rfl⟩ := Nat.exists_eq_add_one.mpr (Nat.zero_lt_of_lt hlt)
      obtain ⟨fuel, rfl⟩ := Nat.exists_eq_add_one.mpr (Nat.zero_lt_of_lt h)
      rw [ancestorsFrom, ancestorsFrom, ih p hlt (by omega), ih p hlt (by omega)]

omit [Field K] [LinearOrder K] in
theorem ancestors_eq (i : ℕ) :
    a.ancestors i = (a.parentOf i).elim [] fun p => p :: a.ancestors p := by
  conv_lhs => unfold ancestors
  cases hp : a.parentOf i with
  | none => cases i <;> rfl
  | some p =>
    obtain ⟨i, rfl⟩ := Nat.exists_eq_add_one.mpr (Nat.zero_lt_of_lt (a.parentOf_lt hp))
    rw [ancestorsFrom, a.ancestorsFrom_eq (Nat.le_of_lt_succ (a.parentOf_lt hp)), Option.elim_some]

def ancestorNodes (i : ℕ) : List (Node K) := (a.ancestors i).filterMap (a.nodes[·]?)

/-- The frames of the scrollers around a node. -/
def scrollerFrames (i : ℕ) : List (Rect K) :=
  ((a.ancestorNodes i).filter fun n => n.elementType ∈ scrollerTypes).map Node.frame

/-! ### Target lookup -/

def matchesTarget (target : Target K) (i : ℕ) (node : Node K) : Bool :=
  (framesMatch node.frame target.frame ||
    a.snapshotFrames[i]?.any fun frame => framesMatch frame target.frame) &&
  target.elementType.all (node.elementType = ·) && target.label.all (node.label = ·) &&
  target.identifier.all (node.identifier = ·)

/-- The deepest node that matches. -/
def locate (target : Target K) : Option ℕ :=
  ((a.nodes.zipIdx.filter fun p => a.matchesTarget target p.2 p.1).getLast?).map Prod.snd

/-! ### The keyboard -/

def isKeyboardRoot (node : Node K) : Bool :=
  node.elementType = .keyboard || node.identifier = "inputView"

def keyboardWindows : List ℕ :=
  let mainWindow := (a.nodes.find? fun n => n.window.isSome).bind Node.window
  (a.nodes.filter fun n => n.window ≠ mainWindow && isKeyboardRoot n).filterMap Node.window

def inKeyboardWindow (node : Node K) : Bool := node.window.any (· ∈ a.keyboardWindows)

def isInKeyboard (t : ℕ) : Bool :=
  a.nodes[t]?.any a.inKeyboardWindow || (a.ancestorNodes t).any (·.elementType = .keyboard)

def dockedKeyboardSlack : K := 120

/-- Whether a node of the keyboard's windows is part of what the keyboard covers. -/
def growsKeyboard (keyboard : Rect K) (node : Node K) : Bool :=
  let f := node.frame
  a.inKeyboardWindow node && 0 < width f && 0 < height f && a.screen.top ≤ f.top &&
    f.bottom ≤ a.screen.bottom + 1 && height f ≤ height a.screen * (3 / 4) &&
    keyboard.left < f.right && f.left < keyboard.right && keyboard.top < f.bottom

/-- The area the keyboard covers. -/
def keyboardRegion : Option (Rect K) :=
  (a.nodes.find? fun n =>
    n.elementType = .keyboard && 0 < width n.frame && 0 < height n.frame).map fun node =>
    let keyboard := node.frame
    let top := (a.nodes.filter (a.growsKeyboard keyboard)).foldl
      (fun top n => min top n.frame.top) keyboard.top
    if a.screen.bottom - dockedKeyboardSlack ≤ keyboard.bottom ∧
        width a.screen * (9 / 10) ≤ width keyboard then
      cgRect a.screen.left top (width a.screen) (a.screen.bottom - top)
    else cgRect keyboard.left top (width keyboard) (keyboard.bottom - top)

/-! ### Bars -/

def isSelfOrAncestor (i : ℕ) (node : Node K) (target : Option ℕ) (targetFrame : Rect K) : Bool :=
  target.elim (containsRect node.frame targetFrame) fun t => i ≤ t && t < node.subtreeEnd

/-- Whether a bar is drawn over the target: over the content of its own container, and over what
    is painted before it. -/
def barCovers (i : ℕ) (node : Node K) (target : Option ℕ) : Bool :=
  target.elim true fun t =>
    (a.nodes[t]?.any fun n => n.subtreeEnd ≤ i) ||
    node.parent.any fun container => a.nodes[container]?.any fun n =>
      n.elementType ≠ .window && n.elementType ≠ .application && container < t && t < n.subtreeEnd

def isBarOver (target : Target K) (i : ℕ) (node : Node K) : Bool :=
  node.elementType ∈ barTypes && !a.inKeyboardWindow node &&
    !isSelfOrAncestor i node (a.locate target) target.frame && a.barCovers i node (a.locate target)

/-! ### The verdict -/

-- `RoleMapping.elementTypeToRole`, and `String.lowercased`
variable (elementTypeToRole : ElementType → Option String) (lowercased : String → String)

def describe (node : Node K) : String :=
  let kind := match node.elementType with
    | .navigationBar => "navigation bar"
    | .tabBar => "tab bar"
    | .toolbar => "toolbar"
    | .other => "element"
    | elementType => (elementTypeToRole elementType).getD "element"
  let name := if node.label = "" then node.identifier else node.label
  if name = "" then kind else kind ++ " \"" ++ name ++ "\""

/-- The keyboard, and the bars over the target. -/
def clips (target : Target K) : List (Clip K) :=
  (if (a.locate target).any a.isInKeyboard then []
    else a.keyboardRegion.toList.map fun region => ⟨region, "the keyboard"⟩) ++
  (a.nodes.zipIdx.filter fun p => a.isBarOver target p.2 p.1).map
    fun p => ⟨p.1.frame, describe elementTypeToRole p.1⟩

/-- The loop over the scrollers around the target. -/
def clipToScrollers : List (Rect K) → Rect K → Option (Rect K)
  | [], visible => some visible
  | frame :: rest, visible =>
    ((intersection visible frame).filter isTouchable).bind (clipToScrollers rest)

/-- The target's part on screen and inside its scrollers, or why there is none. -/
def clippedPart (target : Target K) : Except (Verdict K) (Rect K) :=
  ((intersection target.frame a.screen).filter isTouchable).elim (.error .offScreen) fun visible =>
    if !target.isLive && !a.nodes.isEmpty && target.elementType.isNone && target.label.isNone &&
        target.identifier.isNone then .error .gone
    else (a.locate target).elim
      (if !target.isLive && !a.nodes.isEmpty then .error .gone else .ok visible) fun t =>
        if a.nodes[t]?.map Node.frame ≠ a.snapshotFrames[t]? then .error .offScreen
        else (clipToScrollers (a.scrollerFrames t) visible).elim (.error .offScreen) .ok

/-- The loop over the clips: the one that takes the rest of the part, or what is left of it. -/
def cutClips : List (Clip K) → Rect K → Except (Clip K) (Rect K)
  | [], visible => .ok visible
  | clip :: rest, visible =>
    ((subtract clip.rect visible).filter isTouchable).elim (.error clip) (cutClips rest)

/-- The part of the target that is touched, before the hit test. -/
def visiblePart (target : Target K) : Except (Verdict K) (Rect K) :=
  (a.clippedPart target).bind fun visible =>
    (cutClips (a.clips elementTypeToRole target) visible).mapError fun clip => .covered clip.name

def isScrollIndicator (node : Node K) : Bool :=
  node.elementType = .other &&
  (node.parent.any fun p => a.nodes[p]?.any fun n => n.elementType ∈ scrollerTypes) &&
  decide ("scroll bar".toList <:+: (lowercased node.label).toList)

def isTapsmithHooksMarker (node : Node K) : Bool :=
  node.elementType = .staticText &&
    (node.identifier = "tapsmith-hooks" || "tapsmith-hooks:".isPrefixOf node.label)

/-- A node's frame inside its scrollers. -/
def clippedFrame (i : ℕ) (node : Node K) : Option (Rect K) :=
  (a.scrollerFrames i).foldl (fun frame s => frame.bind (intersection · s)) (some node.frame)

/-- The staticText the target is a run of. -/
def paragraph (t : ℕ) : Option ℕ :=
  (a.parentOf t).filter fun p => a.nodes[p]?.any (·.elementType = .staticText)

/-- Whether a node painted after the target takes a touch at the point. -/
def coversPoint (t : ℕ) (point : K × K) (i : ℕ) (node : Node K) : Bool :=
  !(a.inKeyboardWindow node && !a.isInKeyboard t) &&
  !((a.paragraph t).isSome && node.parent = a.paragraph t && node.elementType ∈ textRunTypes) &&
  !(a.isScrollIndicator lowercased node || isTapsmithHooksMarker node) &&
  node.elementType ∈ interactiveTypes && (a.clippedFrame i node).any (containsPoint · point)

/-- The last node that takes the touch. -/
def coverAt (t : ℕ) (point : K × K) : Option (Node K) :=
  (((a.nodes.zipIdx.drop (a.nodes[t]?.elim 0 Node.subtreeEnd)).filter fun p =>
    a.coversPoint lowercased t point p.2 p.1).getLast?).map Prod.fst

def hitTest (target : Target K) (isHittable : Bool) (visible : Rect K) : Verdict K :=
  let point := midpoint visible
  if isHittable then .clear point visible
  else (a.locate target).elim
    (if a.nodes.isEmpty then .clear point visible else .unlocated point visible) fun t =>
      (a.coverAt lowercased t point).elim (.clear point visible) fun cover =>
        .covered (describe elementTypeToRole cover)

def analyze (target : Target K) (isHittable : Bool) : Verdict K :=
  match a.visiblePart elementTypeToRole target with
  | .error verdict => verdict
  | .ok visible => a.hitTest elementTypeToRole lowercased target isHittable visible

end Analyzer

/-! ### Cutting one clip out -/

section

variable {K : Type} [Field K] [LinearOrder K]

def Touchable (r : Rect K) : Prop := minVisibleExtent ≤ width r ∧ minVisibleExtent ≤ height r

omit [Field K] in
theorem intersection_eq {r s common : Rect K} (h : intersection r s = some common) :
    common = r.meet s := by
  unfold intersection at h
  dsimp only at h
  split_ifs at h
  exact (Option.some.inj h).symm

/-- What one cut leaves of a part. -/
def keep (part cut : Rect K) : Option (Rect K) := (subtract cut part).filter isTouchable

theorem isTouchable_iff (r : Rect K) : isTouchable r = true ↔ Touchable r := by
  unfold isTouchable
  rw [Bool.and_eq_true, decide_eq_true_iff, decide_eq_true_iff]
  rfl

variable [IsStrictOrderedRing K]

theorem Touchable.proper {r : Rect K} (h : Touchable r) : r.Proper := by
  obtain ⟨hw, hh⟩ := h
  unfold minVisibleExtent width at hw
  unfold minVisibleExtent height at hh
  exact ⟨by linarith, by linarith⟩

theorem midpoint_mem {r : Rect K} (h : r.Proper) : r.Contains (midpoint r).1 (midpoint r).2 := by
  obtain ⟨hx, hy⟩ := h
  refine ⟨?_, ?_, ?_, ?_⟩ <;> dsimp only [midpoint] <;> linarith

theorem cgRect_eq {x y w h : K} (hw : 0 ≤ w) (hh : 0 ≤ h) :
    cgRect x y w h = ⟨x, y, x + w, y + h⟩ := by
  unfold cgRect
  rw [min_eq_left (le_add_of_nonneg_right hw), min_eq_left (le_add_of_nonneg_right hh),
    max_eq_right (le_add_of_nonneg_right hw), max_eq_right (le_add_of_nonneg_right hh)]

end

namespace Analyzer

variable {K : Type} [Field K] [LinearOrder K] (a : Analyzer K)
  (elementTypeToRole : ElementType → Option String) (lowercased : String → String)

/-! ### The part that is left -/

/-- A touchable rectangle of the target, on screen and inside its scrollers, that shares no point
    with the keyboard and the bars over the target. -/
structure Free (target : Target K) (r : Rect K) : Prop where
  touchable : Touchable r
  frame : r.Within target.frame
  screen : r.Within a.screen
  scrollers : ∀ t, a.locate target = some t → ∀ s ∈ a.scrollerFrames t, r.Within s
  clips : ∀ clip ∈ a.clips elementTypeToRole target, r.Beside clip.rect

variable [IsStrictOrderedRing K]

end Analyzer

/-! ### Two bars -/

def node (elementType : ElementType) (frame : Rect ℚ) (subtreeEnd : ℕ) (parent : Option ℕ) :
    Node ℚ where
  elementType := elementType
  label := ""
  identifier := ""
  frame := frame
  subtreeEnd := subtreeEnd
  parent := parent
  window := parent.map fun _ => 1

def phone : Rect ℚ := ⟨0, 0, 390, 844⟩

def toolbar : Node ℚ := node .toolbar ⟨0, 730, 390, 750⟩ 4 (some 1)

def tabBar : Node ℚ := node .tabBar ⟨0, 750, 390, 844⟩ 5 (some 1)

end Tapsmith.Ios.Occlusion
