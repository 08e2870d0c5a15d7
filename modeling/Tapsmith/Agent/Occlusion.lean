import Mathlib.Tactic.Linarith
import Tapsmith.Agent.CoverSearch
import Tapsmith.Lib.Rect

namespace Tapsmith.Agent.Occlusion

open Lib
open TouchPlanner (Box CoverKind Verdict)

/-!
# The touch verdict

`OcclusionAnalyzer.kt`: whether a touch on an element would land on it or on something drawn over
it, from the windows above and the tree of its own window.

* `analyze` — the verdict, with the 32-bit arithmetic of its boxes;
* `remainders`, `cutWindows` — the parts of the target that the windows leave;
* `Exhausts` of `Lib.Rect` — the pieces hold every touchable rectangle that is left;
* `analyze_windows` — what the verdict says about the windows.
-/

/-! ### Boxes -/

/-- A result of `Int` arithmetic. -/
def wrap (n : ℤ) : ℤ := (n + 0x80000000) % 0x100000000 - 0x80000000

def width (b : Box) : ℤ := wrap (b.right - b.left)

def height (b : Box) : ℤ := wrap (b.bottom - b.top)

def isEmpty (b : Box) : Bool := width b ≤ 0 || height b ≤ 0

/-- `Box.area`, a `Long` -/
def area (b : Box) : ℤ := if isEmpty b then 0 else width b * height b

def intersect (b other : Box) : Box :=
  ⟨max b.left other.left, max b.top other.top, min b.right other.right, min b.bottom other.bottom⟩

def intersects (b other : Box) : Bool := !isEmpty (intersect b other)

/-- `Box.contains(other)` -/
def containsBox (b other : Box) : Bool :=
  b.left ≤ other.left && b.top ≤ other.top && other.right ≤ b.right && other.bottom ≤ b.bottom

/-! ### Windows -/

def MIN_VISIBLE_EXTENT : ℤ := 2

inductive WindowKind
  | inputMethod
  | system
  | application
  | other
deriving DecidableEq

structure WindowSpec where
  id : ℤ
  kind : WindowKind
  layer : ℤ
  bounds : Box
  title : Option String
deriving DecidableEq

def coversTarget (targetWindowId targetLayer : Option ℤ) (w : WindowSpec) : Bool :=
  some w.id ≠ targetWindowId && !isEmpty w.bounds &&
    match w.kind with
    | .inputMethod => targetLayer.all (· < w.layer)
    | .system | .application => targetLayer.any (· < w.layer)
    | .other => false

def coveringWindows (windows : List WindowSpec) (targetWindowId : Option ℤ) : List WindowSpec :=
  let targetLayer := (windows.find? fun w => some w.id = targetWindowId).map WindowSpec.layer
  (windows.filter (coversTarget targetWindowId targetLayer)).mergeSort
    fun a b => decide (b.layer ≤ a.layer)

/-- `Char.isWhitespace` -/
def isWhitespace (c : Char) : Bool :=
  let n := c.toNat
  9 ≤ n && n ≤ 13 || 28 ≤ n && n ≤ 32 || n == 0xA0 || n == 0x1680 || 0x2000 ≤ n && n ≤ 0x200A ||
    n == 0x2028 || n == 0x2029 || n == 0x202F || n == 0x205F || n == 0x3000

def windowName (w : WindowSpec) : String :=
  let title := w.title.filter fun t => !t.toList.all isWhitespace
  match w.kind with
  | .inputMethod => "the keyboard"
  | .system => title.elim "a system bar" fun t => "the system window \"" ++ t ++ "\""
  | _ => title.elim "another window" fun t => "the window \"" ++ t ++ "\""

def covered (w : WindowSpec) : Verdict :=
  .covered (windowName w) (if w.kind = .inputMethod then .keyboard else .window)

/-! ### What the windows leave -/

def isTouchable (b : Box) : Bool := MIN_VISIBLE_EXTENT ≤ width b && MIN_VISIBLE_EXTENT ≤ height b

/-- The strips above, below, left and right of a cover. -/
def outside (area cover : Box) : List Box :=
  [⟨area.left, area.top, area.right, min area.bottom cover.top⟩,
   ⟨area.left, max area.top cover.bottom, area.right, area.bottom⟩,
   ⟨area.left, area.top, min area.right cover.left, area.bottom⟩,
   ⟨max area.left cover.right, area.top, area.right, area.bottom⟩]

def remainders (area cover : Box) : List Box := (outside area cover).filter isTouchable

/-- What is left of a piece when a window is cut out. -/
def cutPiece (cover piece : Box) : List Box :=
  if intersects piece cover then remainders piece cover else [piece]

/-- The loop over the windows: the one that takes the last piece, or the pieces that are left. -/
def cutWindows : List WindowSpec → List Box → Except WindowSpec (List Box)
  | [], pieces => .ok pieces
  | w :: rest, pieces =>
    if pieces.all fun p => !intersects p w.bounds then cutWindows rest pieces
    else
      let left := pieces.flatMap (cutPiece w.bounds)
      if left = [] then .error w else cutWindows rest left

/-- The first of the pieces with the largest area. -/
def maxByArea : List Box → Option Box
  | [] => none
  | p :: rest => some (rest.foldl (fun best q => if area best < area q then q else best) p)

/-- Where the chosen part is touched. -/
def midpoint (b : Box) : ℤ × ℤ :=
  ((wrap (b.left + b.right)).tdiv 2, (wrap (b.top + b.bottom)).tdiv 2)

/-! ### The verdict -/

section

variable {N : Type} (tree : HitTree N) (target : Option N) (targetBounds : Box)
  (targetWindowId : Option ℤ) (windows : List WindowSpec) (screen : Box)

/-- Whether something in the target's own window takes the touch on the chosen part. -/
def touchVerdict (visible : Box) : Verdict :=
  let point := midpoint visible
  match target.bind fun node => findCoverInWindow tree node point.1 point.2 with
  | some cover => .covered (tree.describe cover) .control
  | none => .clear point.1 point.2 visible

def analyze : Verdict :=
  let onScreen := intersect targetBounds screen
  if !isTouchable onScreen then .offScreen
  else
    let covers := coveringWindows windows targetWindowId
    if target.any fun node => !tree.isVisible node then
      -- something hides all of the view
      ((covers.find? fun w => containsBox w.bounds onScreen).or
        (covers.find? fun w => intersects w.bounds onScreen)).elim .offScreen covered
    else
      match cutWindows covers [onScreen] with
      | .error w => covered w
      -- the loop leaves a piece, so `maxBy` finds one
      | .ok pieces => (maxByArea pieces).elim .offScreen (touchVerdict tree target)

end

/-! ### Arithmetic that does not overflow -/

def rect (b : Box) : Rect ℤ := ⟨b.left, b.top, b.right, b.bottom⟩

/-- Coordinates whose sums and differences fit an `Int`. -/
structure InRange (b : Box) : Prop where
  left : -0x40000000 ≤ b.left ∧ b.left < 0x40000000
  top : -0x40000000 ≤ b.top ∧ b.top < 0x40000000
  right : -0x40000000 ≤ b.right ∧ b.right < 0x40000000
  bottom : -0x40000000 ≤ b.bottom ∧ b.bottom < 0x40000000

def Touchable (r : Rect ℤ) : Prop :=
  MIN_VISIBLE_EXTENT ≤ r.right - r.left ∧ MIN_VISIBLE_EXTENT ≤ r.bottom - r.top

def rectArea (r : Rect ℤ) : ℤ := (r.right - r.left) * (r.bottom - r.top)

theorem Touchable.proper {r : Rect ℤ} (h : Touchable r) : r.Proper := by
  obtain ⟨h₁, h₂⟩ := h
  unfold MIN_VISIBLE_EXTENT at h₁ h₂
  exact ⟨by omega, by omega⟩

theorem Touchable.mono {r s : Rect ℤ} (h : Touchable r) (hrs : r.Within s) : Touchable s := by
  obtain ⟨h₁, h₂⟩ := h
  obtain ⟨hl, ht, hr, hb⟩ := hrs
  exact ⟨by omega, by omega⟩

theorem rectArea_le {r s : Rect ℤ} (hr : Touchable r) (hrs : r.Within s) :
    rectArea r ≤ rectArea s := by
  obtain ⟨h₁, h₂⟩ := hr
  obtain ⟨hl, ht, hright, hb⟩ := hrs
  unfold MIN_VISIBLE_EXTENT at h₁ h₂
  exact mul_le_mul (by omega) (by omega) (by omega) (by omega)

section

variable {b c : Box}

theorem wrap_eq {n : ℤ} (hlo : -0x80000000 ≤ n) (hhi : n < 0x80000000) : wrap n = n := by
  unfold wrap
  omega

theorem width_eq (h : InRange b) : width b = b.right - b.left := by
  obtain ⟨hl, -, hr, -⟩ := h
  exact wrap_eq (by omega) (by omega)

theorem height_eq (h : InRange b) : height b = b.bottom - b.top := by
  obtain ⟨-, ht, -, hb⟩ := h
  exact wrap_eq (by omega) (by omega)

theorem isTouchable_iff (h : InRange b) : isTouchable b = true ↔ Touchable (rect b) := by
  unfold isTouchable
  rw [width_eq h, height_eq h, Bool.and_eq_true, decide_eq_true_eq, decide_eq_true_eq]
  rfl

theorem isEmpty_iff (h : InRange b) : isEmpty b = false ↔ (rect b).Proper := by
  unfold isEmpty
  rw [width_eq h, height_eq h, Bool.or_eq_false_iff, decide_eq_false_iff_not,
    decide_eq_false_iff_not, not_le, not_le, sub_pos, sub_pos]
  rfl

theorem area_eq (h : InRange b) (hb : Touchable (rect b)) : area b = rectArea (rect b) := by
  unfold area
  rw [(isEmpty_iff h).mpr hb.proper, if_neg Bool.false_ne_true, width_eq h, height_eq h]
  rfl

theorem InRange.intersect (hb : InRange b) (hc : InRange c) : InRange (intersect b c) where
  left := ⟨le_max_of_le_left hb.left.1, max_lt hb.left.2 hc.left.2⟩
  top := ⟨le_max_of_le_left hb.top.1, max_lt hb.top.2 hc.top.2⟩
  right := ⟨le_min hb.right.1 hc.right.1, min_lt_of_left_lt hb.right.2⟩
  bottom := ⟨le_min hb.bottom.1 hc.bottom.1, min_lt_of_left_lt hb.bottom.2⟩

theorem rect_intersect : rect (intersect b c) = (rect b).meet (rect c) := rfl

theorem intersects_iff (hb : InRange b) (hc : InRange c) (hb' : (rect b).Proper)
    (hc' : (rect c).Proper) : intersects b c = true ↔ ¬ (rect b).Apart (rect c) := by
  unfold intersects
  rw [Bool.not_eq_true', isEmpty_iff (hb.intersect hc), rect_intersect,
    Rect.meet_proper_iff hb' hc']

/-! ### The pieces -/

theorem InRange.outside (hb : InRange b) (hc : InRange c) : ∀ p ∈ outside b c, InRange p := by
  intro p hp
  simp only [Occlusion.outside, List.mem_cons, List.not_mem_nil, or_false] at hp
  rcases hp with rfl | rfl | rfl | rfl
  · exact ⟨hb.left, hb.top, hb.right,
      le_min hb.bottom.1 hc.top.1, min_lt_of_left_lt hb.bottom.2⟩
  · exact ⟨hb.left, ⟨le_max_of_le_left hb.top.1, max_lt hb.top.2 hc.bottom.2⟩, hb.right, hb.bottom⟩
  · exact ⟨hb.left, hb.top, ⟨le_min hb.right.1 hc.left.1, min_lt_of_left_lt hb.right.2⟩, hb.bottom⟩
  · exact ⟨⟨le_max_of_le_left hb.left.1, max_lt hb.left.2 hc.right.2⟩, hb.top, hb.right, hb.bottom⟩

instance : DecidablePred Touchable := fun r =>
  inferInstanceAs (Decidable (_ ≤ r.right - r.left ∧ _ ≤ r.bottom - r.top))

theorem map_rect_remainders (hb : InRange b) (hc : InRange c) :
    (remainders b c).map rect =
      ((rect b).strips (rect c)).filter fun r => decide (Touchable r) := by
  have hstrips : (rect b).strips (rect c) = (outside b c).map rect := rfl
  rw [hstrips, List.filter_map]
  unfold remainders
  congr 1
  refine List.filter_congr fun p hp => ?_
  rw [Bool.eq_iff_iff, isTouchable_iff (hb.outside hc p hp), Function.comp, decide_eq_true_iff]

theorem InRange.cutPiece (hb : InRange b) (hc : InRange c) : ∀ p ∈ cutPiece c b, InRange p := by
  intro p hp
  unfold Occlusion.cutPiece at hp
  split at hp
  · exact hb.outside hc p (List.mem_filter.mp hp).1
  · obtain rfl := List.mem_singleton.mp hp
    exact hb

/-- **Cutting a window out of a piece** leaves all that is left of it. -/
theorem exhausts_cutPiece (hb : InRange b) (hc : InRange c) (hb' : Touchable (rect b))
    (hc' : (rect c).Proper) :
    Rect.Exhausts Touchable (rect b) [rect c] ((cutPiece c b).map rect) := by
  unfold cutPiece
  split
  case isTrue h =>
    rw [map_rect_remainders hb hc]
    exact Rect.Exhausts.strips (fun _ _ => Touchable.mono) _ _
  case isFalse h =>
    refine Rect.Exhausts.whole hb' (not_not.mp fun hover => h ?_)
    exact (intersects_iff hb hc hb'.proper hc').mpr hover

/-- **The loop over the windows.** It ends with a window exactly when nothing touchable is left, and
    else with pieces that hold all that is. -/
theorem cutWindows_spec {area : Rect ℤ} (windows : List WindowSpec)
    (hwindows : ∀ w ∈ windows, InRange w.bounds ∧ (rect w.bounds).Proper) :
    ∀ (done : List (Rect ℤ)) (pieces : List Box), pieces ≠ [] → (∀ p ∈ pieces, InRange p) →
      Rect.Exhausts Touchable area done (pieces.map rect) →
      (∀ w, cutWindows windows pieces = .error w → w ∈ windows ∧ ∀ r, Touchable r →
        r.Within area → ¬ ∀ c ∈ done ++ windows.map (rect ·.bounds), r.Apart c) ∧
      ∀ left, cutWindows windows pieces = .ok left → left ≠ [] ∧ (∀ p ∈ left, InRange p) ∧
        Rect.Exhausts Touchable area (done ++ windows.map (rect ·.bounds)) (left.map rect) := by
  induction windows with
  | nil =>
    intro done pieces hne hrange hexhausts
    refine ⟨fun w hw => (by cases hw), fun left hleft => ?_⟩
    obtain rfl := Except.ok.inj hleft
    rw [List.map_nil, List.append_nil]
    exact ⟨hne, hrange, hexhausts⟩
  | cons w rest ih =>
    intro done pieces hne hrange hexhausts
    obtain ⟨⟨hw, hw'⟩, hrest⟩ := List.forall_mem_cons.mp hwindows
    have hcut : Rect.Exhausts Touchable area (done ++ [rect w.bounds])
        ((pieces.flatMap (cutPiece w.bounds)).map rect) := by
      have hflat : (pieces.flatMap (cutPiece w.bounds)).map rect =
          (pieces.map rect).flatMap fun r =>
            (cutPiece w.bounds ⟨r.left, r.top, r.right, r.bottom⟩).map rect := by
        rw [List.map_flatMap, List.flatMap_map]
        rfl
      rw [hflat]
      refine hexhausts.cut _ _ fun r hr => ?_
      obtain ⟨p, hp, rfl⟩ := List.mem_map.mp hr
      exact exhausts_cutPiece (hrange p hp) hw (hexhausts.kind_of _ hr) hw'
    have hcutrange : ∀ p ∈ pieces.flatMap (cutPiece w.bounds), InRange p := by
      intro q hq
      obtain ⟨p, hp, hq⟩ := List.mem_flatMap.mp hq
      exact (hrange p hp).cutPiece hw q hq
    have hassoc : done ++ (w :: rest).map (rect ·.bounds) =
        done ++ [rect w.bounds] ++ rest.map (rect ·.bounds) := by
      rw [List.append_assoc]
      rfl
    rw [hassoc, cutWindows]
    dsimp only
    split_ifs with hskip hempty
    · -- a window beside all pieces leaves them whole
      have hwhole : pieces.flatMap (cutPiece w.bounds) = pieces := by
        refine (List.flatMap_congr fun p hp => ?_).trans (List.flatMap_singleton' pieces)
        have hp' : intersects p w.bounds = false := by simpa using List.all_eq_true.mp hskip p hp
        unfold cutPiece
        rw [hp', if_neg Bool.false_ne_true]
      rw [hwhole] at hcut
      obtain ⟨herror, hok⟩ := ih hrest _ pieces hne hrange hcut
      refine ⟨fun v hv => ?_, hok⟩
      obtain ⟨hv, hnone⟩ := herror v hv
      exact ⟨List.mem_cons_of_mem _ hv, hnone⟩
    · refine ⟨fun v hv => ?_, fun left hleft => by cases hleft⟩
      obtain rfl := Except.error.inj hv
      refine ⟨List.mem_cons_self, fun r hr hwithin hall => ?_⟩
      rw [hempty] at hcut
      obtain ⟨q, hq, -⟩ := hcut.exists_piece r hr hwithin fun c hc =>
        hall c (List.mem_append_left _ hc)
      cases hq
    · obtain ⟨herror, hok⟩ := ih hrest _ _ hempty hcutrange hcut
      refine ⟨fun v hv => ?_, hok⟩
      obtain ⟨hv, hnone⟩ := herror v hv
      exact ⟨List.mem_cons_of_mem _ hv, hnone⟩

/-- The chosen piece is one of the pieces, and none is larger. -/
theorem maxByArea_spec {pieces : List Box} (hne : pieces ≠ []) :
    ∃ best ∈ pieces, maxByArea pieces = some best ∧ ∀ p ∈ pieces, area p ≤ area best := by
  cases pieces with
  | nil => exact absurd rfl hne
  | cons p rest =>
    obtain ⟨hmem, hmax⟩ := foldl_greatest_spec area rest p
    exact ⟨_, hmem, rfl, hmax⟩

/-- The middle of a touchable box lies in it. -/
theorem midpoint_mem (h : InRange b) (hb : Touchable (rect b)) :
    (rect b).Contains (midpoint b).1 (midpoint b).2 := by
  obtain ⟨h₁, h₂⟩ := hb
  obtain ⟨hl, ht, hr, hbot⟩ := h
  unfold MIN_VISIBLE_EXTENT at h₁ h₂
  have hx : wrap (b.left + b.right) = b.left + b.right := wrap_eq (by omega) (by omega)
  have hy : wrap (b.top + b.bottom) = b.top + b.bottom := wrap_eq (by omega) (by omega)
  unfold midpoint
  rw [hx, hy]
  have hdiv : ∀ l u : ℤ, 2 ≤ u - l → l ≤ (l + u).tdiv 2 ∧ (l + u).tdiv 2 < u := by
    intro l u hlu
    rcases Int.le_total 0 (l + u) with hsign | hsign
    · rw [Int.tdiv_eq_ediv_of_nonneg hsign]
      omega
    · have hneg : (l + u).tdiv 2 = -(-(l + u) / 2) := by
        rw [← Int.tdiv_eq_ediv_of_nonneg (by omega), Int.neg_tdiv, neg_neg]
      rw [hneg]
      omega
  exact ⟨(hdiv _ _ h₁).1, (hdiv _ _ h₁).2, (hdiv _ _ h₂).1, (hdiv _ _ h₂).2⟩

end

/-! ### The windows -/

/-- The rectangle lies on the part of the target that is on screen, beside all covering windows. -/
structure Free (targetBounds screen : Box) (covers : List WindowSpec) (r : Rect ℤ) : Prop where
  within : r.Within (rect (intersect targetBounds screen))
  apart : ∀ w ∈ covers, r.Apart (rect w.bounds)

section

variable {N : Type} (tree : HitTree N) (target : Option N) (targetBounds : Box)
  (targetWindowId : Option ℤ) (windows : List WindowSpec) (screen : Box)

/-- The verdict is exact about the windows: when the target is off screen, when a window covers it,
    and where it is touched otherwise, on a part that is largest among the free rectangles of a
    kind. -/
structure WindowsExact (kind : Rect ℤ → Prop) : Prop where
  offScreen : analyze tree target targetBounds targetWindowId windows screen = .offScreen ↔
    ¬ Touchable (rect (intersect targetBounds screen))
  covered : Touchable (rect (intersect targetBounds screen)) →
    ((∃ w ∈ coveringWindows windows targetWindowId,
      analyze tree target targetBounds targetWindowId windows screen = covered w) ↔
      ∀ r, Touchable r →
        ¬ Free targetBounds screen (coveringWindows windows targetWindowId) r)
  clear : (∃ r, Touchable r ∧
      Free targetBounds screen (coveringWindows windows targetWindowId) r) →
    ∃ visible, analyze tree target targetBounds targetWindowId windows screen =
        touchVerdict tree target visible ∧
      kind (rect visible) ∧
      Free targetBounds screen (coveringWindows windows targetWindowId) (rect visible) ∧
      (∀ r, kind r → Free targetBounds screen (coveringWindows windows targetWindowId) r →
        rectArea r ≤ rectArea (rect visible)) ∧
      (rect visible).Contains (midpoint visible).1 (midpoint visible).2 ∧
      (rect targetBounds).Contains (midpoint visible).1 (midpoint visible).2 ∧
      (rect screen).Contains (midpoint visible).1 (midpoint visible).2 ∧
      ∀ w ∈ coveringWindows windows targetWindowId,
        ¬ (rect w.bounds).Contains (midpoint visible).1 (midpoint visible).2

variable {tree target targetBounds targetWindowId windows screen}

theorem coveringWindows_spec (hwindows : ∀ w ∈ windows, InRange w.bounds) :
    ∀ w ∈ coveringWindows windows targetWindowId, InRange w.bounds ∧ (rect w.bounds).Proper := by
  intro w hw
  unfold coveringWindows at hw
  rw [(List.mergeSort_perm _ _).mem_iff, List.mem_filter] at hw
  refine ⟨hwindows w hw.1, (isEmpty_iff (hwindows w hw.1)).mp ?_⟩
  have hcovers := hw.2
  unfold coversTarget at hcovers
  rw [Bool.and_eq_true, Bool.and_eq_true, Bool.not_eq_true'] at hcovers
  exact hcovers.1.2

/-- A touch is on the target's own part: what it meets is no window and the screen's edge. -/
theorem touchVerdict_ne (tree : HitTree N) (target : Option N) (visible : Box) :
    touchVerdict tree target visible ≠ .offScreen ∧
      ∀ w, touchVerdict tree target visible ≠ Occlusion.covered w := by
  unfold touchVerdict
  dsimp only
  split
  · refine ⟨fun h => (by cases h), fun w h => ?_⟩
    unfold Occlusion.covered at h
    have hkind := (Verdict.covered.inj h).2
    split at hkind <;> cases hkind
  · exact ⟨fun h => (by cases h), fun w h => (by cases h)⟩

/-- **The window part of the verdict is exact** for a target that is visible or could not be read,
    where no coordinate overflows: the part that is touched is a largest touchable one. -/
theorem analyze_windows (hvisible : ∀ node, target = some node → tree.isVisible node = true)
    (htarget : InRange targetBounds) (hscreen : InRange screen)
    (hwindows : ∀ w ∈ windows, InRange w.bounds) :
    WindowsExact tree target targetBounds targetWindowId windows screen Touchable := by
  have honScreen := htarget.intersect hscreen
  have hcovers : ∀ w ∈ coveringWindows windows targetWindowId,
      InRange w.bounds ∧ (rect w.bounds).Proper := coveringWindows_spec hwindows
  have hshown : (target.any fun node => !tree.isVisible node) = false := by
    cases htarget : target with
    | none => rfl
    | some node => rw [Option.any_some, hvisible node htarget]; rfl
  obtain ⟨covers, hlist⟩ : ∃ l, coveringWindows windows targetWindowId = l := ⟨_, rfl⟩
  obtain ⟨onScreen, hbox⟩ : ∃ b, intersect targetBounds screen = b := ⟨_, rfl⟩
  obtain ⟨verdict, hverdict⟩ :
    ∃ v, analyze tree target targetBounds targetWindowId windows screen = v := ⟨_, rfl⟩
  have hfree : ∀ r, Free targetBounds screen covers r ↔
      r.Within (rect onScreen) ∧ ∀ c ∈ covers.map (rect ·.bounds), r.Apart c := by
    intro r
    rw [List.forall_mem_map, ← hbox]
    exact ⟨fun h => ⟨h.within, h.apart⟩, fun h => ⟨h.1, h.2⟩⟩
  rw [hlist] at hcovers
  rw [hbox] at honScreen
  have hoff : ¬ Touchable (rect onScreen) → verdict = .offScreen := by
    intro h
    rw [← hverdict]
    unfold analyze
    dsimp only
    rw [hbox, if_pos]
    rw [Bool.not_eq_true', Bool.eq_false_iff]
    exact fun htouch => h ((isTouchable_iff honScreen).mp htouch)
  have hon : Touchable (rect onScreen) →
      (∃ w ∈ covers, verdict = Occlusion.covered w ∧
        ∀ r, Touchable r → ¬ Free targetBounds screen covers r) ∨
      ∃ visible, verdict = touchVerdict tree target visible ∧
        Touchable (rect visible) ∧ Free targetBounds screen covers (rect visible) ∧
        InRange visible ∧ ∀ r, Touchable r → Free targetBounds screen covers r →
          rectArea r ≤ rectArea (rect visible) := by
    intro h
    have hstart : Rect.Exhausts Touchable (rect onScreen) [] ([onScreen].map rect) :=
      Rect.Exhausts.start h
    obtain ⟨herror, hok⟩ := cutWindows_spec covers hcovers [] [onScreen] (by simp)
      (fun p hp => by rw [List.mem_singleton.mp hp]; exact honScreen) hstart
    have hanalyze : verdict = match cutWindows covers [onScreen] with
        | .error w => Occlusion.covered w
        | .ok pieces => (maxByArea pieces).elim .offScreen (touchVerdict tree target) := by
      rw [← hverdict]
      unfold analyze
      dsimp only
      rw [hbox, hlist, (isTouchable_iff honScreen).mpr h, hshown]
      rfl
    cases hcut : cutWindows covers [onScreen] with
    | error w =>
      obtain ⟨hw, hnone⟩ := herror w hcut
      rw [hcut] at hanalyze
      refine .inl ⟨w, hw, hanalyze, fun r hr hrfree => ?_⟩
      obtain ⟨hwithin, hall⟩ := (hfree r).mp hrfree
      exact hnone r hr hwithin hall
    | ok pieces =>
      obtain ⟨hne, hrange, hexhausts⟩ := hok pieces hcut
      rw [List.nil_append] at hexhausts
      obtain ⟨best, hbest, hmax, hlargest⟩ := maxByArea_spec hne
      rw [hcut] at hanalyze
      have hmem : rect best ∈ pieces.map rect := List.mem_map_of_mem hbest
      have htouch := hexhausts.kind_of _ hmem
      refine .inr ⟨best, ?_, htouch, (hfree _).mpr ⟨hexhausts.within _ hmem,
        hexhausts.apart _ hmem⟩, hrange best hbest, fun r hr hrfree => ?_⟩
      · rw [hanalyze]
        dsimp only
        rw [hmax]
        rfl
      · obtain ⟨hwithin, hall⟩ := (hfree r).mp hrfree
        obtain ⟨q, hq, hrq⟩ := hexhausts.exists_piece r hr hwithin hall
        obtain ⟨p, hp, rfl⟩ := List.mem_map.mp hq
        have hp' := hexhausts.kind_of _ hq
        calc rectArea r ≤ rectArea (rect p) := rectArea_le hr hrq
          _ = area p := (area_eq (hrange p hp) hp').symm
          _ ≤ area best := hlargest p hp
          _ = rectArea (rect best) := area_eq (hrange best hbest) htouch
  constructor
  · rw [hbox, hverdict]
    refine ⟨fun hv htouch => ?_, hoff⟩
    rcases hon htouch with ⟨w, -, hw, -⟩ | ⟨visible, hv', -⟩
    · rw [hw] at hv
      cases hv
    · exact (touchVerdict_ne tree target visible).1 (hv'.symm.trans hv)
  · rw [hbox, hverdict, hlist]
    intro htouch
    constructor
    · rintro ⟨w, -, hw⟩ r hr hrfree
      rcases hon htouch with ⟨-, -, -, hnone⟩ | ⟨visible, hv, -⟩
      · exact hnone r hr hrfree
      · exact (touchVerdict_ne tree target visible).2 w (hv.symm.trans hw)
    · intro hnone
      rcases hon htouch with ⟨w, hw, hv, -⟩ | ⟨visible, -, hvis, hvfree, -⟩
      · exact ⟨w, hw, hv⟩
      · exact absurd hvfree (hnone _ hvis)
  · rw [hverdict, hlist]
    rintro ⟨r, hr, hrfree⟩
    have htouch : Touchable (rect onScreen) := by
      refine hr.mono ?_
      rw [← hbox]
      exact hrfree.within
    rcases hon htouch with ⟨-, -, -, hnone⟩ | ⟨visible, hv, hvis, hvfree, hrange, hlargest⟩
    · exact absurd hrfree (hnone r hr)
    · have hpoint := midpoint_mem hrange hvis
      have hon := hvfree.within.contains hpoint
      rw [rect_intersect] at hon
      exact ⟨visible, hv, hvis, hvfree, hlargest, hpoint, Rect.meet_within_left.contains hon,
        Rect.meet_within_right.contains hon,
        fun w hw => (hvfree.apart w hw).not_contains hpoint⟩

end

/-- A phone's screen, with a keyboard and a dialog over it. -/
def phone : Box := ⟨0, 0, 1080, 2400⟩

def keyboard : WindowSpec where
  id := 7
  kind := .inputMethod
  layer := 3
  bounds := ⟨0, 1500, 1080, 2400⟩
  title := none

theorem keyboard_inRange : ∀ w ∈ [keyboard], InRange w.bounds := by
  intro w hw
  rw [List.mem_singleton.mp hw]
  constructor <;> decide

theorem analyze_windows_button : WindowsExact overlayTree (some 1) ⟨100, 1400, 300, 1600⟩ none
    [keyboard] phone Touchable :=
  analyze_windows (fun _ _ => rfl) (by constructor <;> decide) (by constructor <;> decide)
    keyboard_inRange

/-- A low field, most of it behind a floating keyboard. -/
def field : Box := ⟨0, 0, 1000, 3⟩

def floating : WindowSpec := { keyboard with bounds := ⟨2, 0, 1000, 2⟩ }

/-- The line below the keyboard is larger than the part that is touched; and where coordinates
    overflow, a target that fills the screen counts as off screen. -/
theorem not_windowsExact :
    ¬ WindowsExact overlayTree none field none [floating] phone Rect.Proper ∧
      ∀ kind, ¬ WindowsExact overlayTree none ⟨-0x80000000, 0, 0x7fffffff, 10⟩ none []
        ⟨-0x80000000, 0, 0x7fffffff, 10⟩ kind := by
  refine ⟨fun h => ?_, fun kind h => ?_⟩
  · have hcovers : coveringWindows [floating] none = [floating] := by decide +kernel
    have hfree : ∀ r : Rect ℤ, r.Within (rect field) → r.Apart (rect floating.bounds) →
        Free field phone (coveringWindows [floating] none) r := by
      intro r hr hr'
      rw [hcovers]
      exact ⟨hr, fun w hw => by rw [List.mem_singleton.mp hw]; exact hr'⟩
    have hverdict : analyze overlayTree none field none [floating] phone =
        .clear 1 1 ⟨0, 0, 2, 3⟩ := by decide +kernel
    obtain ⟨visible, hanalyze, -, -, hlargest, -⟩ := h.clear ⟨⟨0, 0, 2, 3⟩, by decide,
      hfree _ (by unfold Rect.Within; decide) (by unfold Rect.Apart; decide)⟩
    have hvisible : visible = ⟨0, 0, 2, 3⟩ :=
      (Verdict.clear.inj (hanalyze.symm.trans hverdict)).2.2
    subst hvisible
    have hline := hlargest ⟨0, 2, 1000, 3⟩ (by unfold Rect.Proper; decide)
      (hfree _ (by unfold Rect.Within; decide) (by unfold Rect.Apart; decide))
    exact absurd hline (by decide)
  · exact absurd (h.offScreen.mp (by decide +kernel)) (by decide)

end Tapsmith.Agent.Occlusion
