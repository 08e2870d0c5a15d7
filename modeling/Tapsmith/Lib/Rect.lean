import Mathlib.Order.Lattice
import Mathlib.Order.Defs.LinearOrder
import Mathlib.Order.MinMax

namespace Lib

/-!
# Rectangles

Half-open rectangles over a linear order, and what is left of one when others are cut out of it.

* `Within`, `Apart` — containment, and to lie beside;
* `apart_iff` — rectangles that are not empty are apart when they share no point;
* `strips` — the parts above, below, left and right of a rectangle, which may overlap;
* `Exhausts` — pieces that hold every rectangle of some kind that is left; `Exhausts.cut` keeps it
  when one more rectangle is cut out;
* `keepAll` — one piece is kept of what each cut leaves; `Misses` and `Drops` say what is lost.
-/

@[ext]
structure Rect (α : Type) where
  left : α
  top : α
  right : α
  bottom : α
deriving DecidableEq

namespace Rect

variable {α : Type} [LinearOrder α] {r s t : Rect α}

def Contains (r : Rect α) (x y : α) : Prop :=
  r.left ≤ x ∧ x < r.right ∧ r.top ≤ y ∧ y < r.bottom

def Proper (r : Rect α) : Prop := r.left < r.right ∧ r.top < r.bottom

def Within (r s : Rect α) : Prop :=
  s.left ≤ r.left ∧ s.top ≤ r.top ∧ r.right ≤ s.right ∧ r.bottom ≤ s.bottom

/-- One lies to a side of the other. -/
def Apart (r s : Rect α) : Prop :=
  r.bottom ≤ s.top ∨ s.bottom ≤ r.top ∨ r.right ≤ s.left ∨ s.right ≤ r.left

def meet (r s : Rect α) : Rect α :=
  ⟨max r.left s.left, max r.top s.top, min r.right s.right, min r.bottom s.bottom⟩

/-! ### Containment and disjointness -/

theorem Within.refl (r : Rect α) : Within r r := ⟨le_rfl, le_rfl, le_rfl, le_rfl⟩

theorem Within.trans (h : Within r s) (h' : Within s t) : Within r t :=
  ⟨h'.1.trans h.1, h'.2.1.trans h.2.1, h.2.2.1.trans h'.2.2.1, h.2.2.2.trans h'.2.2.2⟩

theorem Within.contains (h : Within r s) {x y : α} (hr : r.Contains x y) : s.Contains x y :=
  ⟨h.1.trans hr.1, hr.2.1.trans_le h.2.2.1, h.2.1.trans hr.2.2.1, hr.2.2.2.trans_le h.2.2.2⟩

theorem Within.proper (h : Within r s) (hr : r.Proper) : s.Proper :=
  ⟨(h.1.trans_lt hr.1).trans_le h.2.2.1, (h.2.1.trans_lt hr.2).trans_le h.2.2.2⟩

/-- A part of what is apart is apart. -/
theorem Apart.mono (h : Apart s t) (hrs : Within r s) : Apart r t := by
  rcases h with h | h | h | h
  · exact .inl (hrs.2.2.2.trans h)
  · exact .inr (.inl (h.trans hrs.2.1))
  · exact .inr (.inr (.inl (hrs.2.2.1.trans h)))
  · exact .inr (.inr (.inr (h.trans hrs.1)))

theorem not_apart_iff : ¬ Apart r s ↔
    s.top < r.bottom ∧ r.top < s.bottom ∧ s.left < r.right ∧ r.left < s.right := by
  unfold Apart
  rw [not_or, not_or, not_or, not_le, not_le, not_le, not_le]

theorem meet_proper_iff (hr : r.Proper) (hs : s.Proper) : (meet r s).Proper ↔ ¬ Apart r s := by
  rw [not_apart_iff]
  unfold Proper meet
  rw [max_lt_iff, lt_min_iff, lt_min_iff, max_lt_iff, lt_min_iff, lt_min_iff]
  constructor
  · rintro ⟨⟨⟨-, h₁⟩, h₂, -⟩, ⟨-, h₃⟩, h₄, -⟩
    exact ⟨h₄, h₃, h₂, h₁⟩
  · rintro ⟨h₁, h₂, h₃, h₄⟩
    exact ⟨⟨⟨hr.1, h₄⟩, h₃, hs.1⟩, ⟨hr.2, h₂⟩, h₁, hs.2⟩

theorem meet_within_left : Within (meet r s) r :=
  ⟨le_max_left _ _, le_max_left _ _, min_le_left _ _, min_le_left _ _⟩

theorem meet_within_right : Within (meet r s) s :=
  ⟨le_max_right _ _, le_max_right _ _, min_le_right _ _, min_le_right _ _⟩

theorem within_meet_iff : Within r (meet s t) ↔ Within r s ∧ Within r t := by
  unfold Within meet
  rw [max_le_iff, max_le_iff, le_min_iff, le_min_iff]
  constructor
  · rintro ⟨⟨h₁, h₂⟩, ⟨h₃, h₄⟩, ⟨h₅, h₆⟩, h₇, h₈⟩
    exact ⟨⟨h₁, h₃, h₅, h₇⟩, h₂, h₄, h₆, h₈⟩
  · rintro ⟨⟨h₁, h₃, h₅, h₇⟩, h₂, h₄, h₆, h₈⟩
    exact ⟨⟨h₁, h₂⟩, ⟨h₃, h₄⟩, ⟨h₅, h₆⟩, h₇, h₈⟩

theorem Contains.proper {x y : α} (h : r.Contains x y) : r.Proper :=
  ⟨h.1.trans_lt h.2.1, h.2.2.1.trans_lt h.2.2.2⟩

theorem Apart.not_contains (h : Apart r s) {x y : α} (hr : r.Contains x y) : ¬ s.Contains x y := by
  obtain ⟨hl, hx, ht, hy⟩ := hr
  rintro ⟨hl', hx', ht', hy'⟩
  rcases h with h | h | h | h
  · exact absurd (ht'.trans_lt hy) (not_lt.mpr h)
  · exact absurd (ht.trans_lt hy') (not_lt.mpr h)
  · exact absurd (hl'.trans_lt hx) (not_lt.mpr h)
  · exact absurd (hl.trans_lt hx') (not_lt.mpr h)

/-- **Apart means disjoint.** -/
theorem apart_iff (hr : r.Proper) (hs : s.Proper) :
    Apart r s ↔ ∀ x y, ¬ (r.Contains x y ∧ s.Contains x y) := by
  constructor
  · exact fun h x y hxy => h.not_contains hxy.1 hxy.2
  · intro h
    by_contra hover
    -- the top left corner of the common part
    have hmeet := (meet_proper_iff hr hs).mpr hover
    have hcorner : (meet r s).Contains (meet r s).left (meet r s).top :=
      ⟨le_rfl, hmeet.1, le_rfl, hmeet.2⟩
    exact h _ _ ⟨meet_within_left.contains hcorner, meet_within_right.contains hcorner⟩

/-! ### Cutting -/

/-- The parts of an area above, below, left and right of a cover. -/
def strips (area cover : Rect α) : List (Rect α) :=
  [⟨area.left, area.top, area.right, min area.bottom cover.top⟩,
   ⟨area.left, max area.top cover.bottom, area.right, area.bottom⟩,
   ⟨area.left, area.top, min area.right cover.left, area.bottom⟩,
   ⟨max area.left cover.right, area.top, area.right, area.bottom⟩]

theorem strips_spec {area cover : Rect α} (h : s ∈ strips area cover) :
    Within s area ∧ Apart s cover := by
  simp only [strips, List.mem_cons, List.not_mem_nil, or_false] at h
  rcases h with rfl | rfl | rfl | rfl
  · exact ⟨⟨le_rfl, le_rfl, le_rfl, min_le_left _ _⟩, .inl (min_le_right _ _)⟩
  · exact ⟨⟨le_rfl, le_max_left _ _, le_rfl, le_rfl⟩, .inr (.inl (le_max_right _ _))⟩
  · exact ⟨⟨le_rfl, le_rfl, min_le_left _ _, le_rfl⟩, .inr (.inr (.inl (min_le_right _ _)))⟩
  · exact ⟨⟨le_max_left _ _, le_rfl, le_rfl, le_rfl⟩, .inr (.inr (.inr (le_max_right _ _)))⟩

/-- What lies beside the cover lies in one of the strips. -/
theorem exists_strip {area cover : Rect α} (h : Within r area) (hr : Apart r cover) :
    ∃ s ∈ strips area cover, Within r s := by
  obtain ⟨hl, ht, hright, hbottom⟩ := h
  simp only [strips, List.mem_cons, List.not_mem_nil, or_false, exists_eq_or_imp,
    exists_eq_left]
  rcases hr with h | h | h | h
  · exact .inl ⟨hl, ht, hright, le_min hbottom h⟩
  · exact .inr (.inl ⟨hl, max_le ht h, hright, hbottom⟩)
  · exact .inr (.inr (.inl ⟨hl, ht, le_min hright h, hbottom⟩))
  · exact .inr (.inr (.inr ⟨max_le hl h, ht, hright, hbottom⟩))

/-- The pieces are rectangles of a kind in the area beside the covers, and every such rectangle
    lies in one of them. -/
structure Exhausts (kind : Rect α → Prop) (area : Rect α) (covers pieces : List (Rect α)) :
    Prop where
  kind_of : ∀ p ∈ pieces, kind p
  within : ∀ p ∈ pieces, Within p area
  apart : ∀ p ∈ pieces, ∀ c ∈ covers, Apart p c
  exists_piece : ∀ r, kind r → Within r area → (∀ c ∈ covers, Apart r c) →
    ∃ p ∈ pieces, Within r p

variable {kind : Rect α → Prop} {area : Rect α} {covers pieces : List (Rect α)}

theorem Exhausts.start (h : kind area) : Exhausts kind area [] [area] where
  kind_of p hp := by
    obtain rfl := List.mem_singleton.mp hp
    exact h
  within p hp := by
    obtain rfl := List.mem_singleton.mp hp
    exact Within.refl _
  apart p _ c hc := absurd hc List.not_mem_nil
  exists_piece r _ hr _ := ⟨area, List.mem_singleton_self _, hr⟩

/-- **One more cover.** Every piece is replaced by what `cut` leaves of it: rectangles of the kind
    in its strips, and each of them that is of the kind. -/
theorem Exhausts.cut (h : Exhausts kind area covers pieces) (cover : Rect α)
    (cut : Rect α → List (Rect α))
    (hcut : ∀ p ∈ pieces, Exhausts kind p [cover] (cut p)) :
    Exhausts kind area (covers ++ [cover]) (pieces.flatMap cut) where
  kind_of q hq := by
    obtain ⟨p, hp, hq⟩ := List.mem_flatMap.mp hq
    exact (hcut p hp).kind_of q hq
  within q hq := by
    obtain ⟨p, hp, hq⟩ := List.mem_flatMap.mp hq
    exact ((hcut p hp).within q hq).trans (h.within p hp)
  apart q hq c hc := by
    obtain ⟨p, hp, hq⟩ := List.mem_flatMap.mp hq
    rcases List.mem_append.mp hc with hc | hc
    · exact (h.apart p hp c hc).mono ((hcut p hp).within q hq)
    · exact (hcut p hp).apart q hq c hc
  exists_piece r hr harea hall := by
    obtain ⟨p, hp, hrp⟩ :=
      h.exists_piece r hr harea fun c hc => hall c (List.mem_append_left _ hc)
    obtain ⟨q, hq, hrq⟩ := (hcut p hp).exists_piece r hr hrp fun c hc =>
      hall c (List.mem_append_right _ hc)
    exact ⟨q, List.mem_flatMap.mpr ⟨p, hp, hq⟩, hrq⟩

/-- The strips of the kind exhaust what is left of a piece. -/
theorem Exhausts.strips [DecidablePred kind] (hkind : ∀ r s, kind r → Within r s → kind s)
    (area cover : Rect α) :
    Exhausts kind area [cover] ((strips area cover).filter fun s => decide (kind s)) where
  kind_of s hs := by simpa using (List.mem_filter.mp hs).2
  within s hs := (strips_spec (List.mem_filter.mp hs).1).1
  apart s hs c hc := by
    obtain rfl := List.mem_singleton.mp hc
    exact (strips_spec (List.mem_filter.mp hs).1).2
  exists_piece r hr harea hall := by
    obtain ⟨s, hs, hrs⟩ := exists_strip harea (hall cover (List.mem_singleton_self _))
    exact ⟨s, List.mem_filter.mpr ⟨hs, decide_eq_true (hkind r s hr hrs)⟩, hrs⟩

/-- A piece beside the cover stays whole. -/
theorem Exhausts.whole {cover : Rect α} (harea : kind area) (hcover : Apart area cover) :
    Exhausts kind area [cover] [area] where
  kind_of p hp := by
    obtain rfl := List.mem_singleton.mp hp
    exact harea
  within p hp := by
    obtain rfl := List.mem_singleton.mp hp
    exact Within.refl _
  apart p hp c hc := by
    obtain rfl := List.mem_singleton.mp hp
    obtain rfl := List.mem_singleton.mp hc
    exact hcover
  exists_piece r _ hr _ := ⟨area, List.mem_singleton_self _, hr⟩

/-! ### Keeping one piece -/

/-- To share no point. -/
def Beside (r s : Rect α) : Prop := ∀ x y, ¬ (r.Contains x y ∧ s.Contains x y)

theorem Beside.mono (h : Beside s t) (hrs : Within r s) : Beside r t :=
  fun x y hxy => h x y ⟨hrs.contains hxy.1, hxy.2⟩

theorem Apart.beside (h : Apart r s) : Beside r s := fun _ _ hxy => h.not_contains hxy.1 hxy.2

/-- A rectangle of the kind in the area that shares no point with a cover. -/
structure Left (kind : Rect α → Prop) (covers : List (Rect α)) (area r : Rect α) : Prop where
  kind_of : kind r
  within : Within r area
  beside : ∀ c ∈ covers, Beside r c

section

variable {cover : Rect α} {covers' : List (Rect α)}

theorem Left.perm (h : Left kind covers area r) (hperm : covers'.Perm covers) :
    Left kind covers' area r :=
  ⟨h.kind_of, h.within, fun c hc => h.beside c (hperm.mem_iff.mp hc)⟩

/-- What is left of a piece is left beside the later covers. -/
theorem Left.tail (h : Left kind (cover :: covers) area r) (hrs : Within r s) :
    Left kind covers s r :=
  ⟨h.kind_of, hrs, fun c hc => h.beside c (List.mem_cons_of_mem _ hc)⟩

variable (kind) (keep : Rect α → Rect α → Option (Rect α))

/-- A rule that keeps, of an area of the kind, a part of the kind beside the cover. -/
def Keeps : Prop :=
  ∀ area cover p, kind area → keep area cover = some p → Left kind [cover] area p

variable {kind keep}

theorem Keeps.left (h : Keeps kind keep) {p : Rect α} (harea : kind area)
    (hp : keep area cover = some p) (hr : Left kind covers p r) :
    Left kind (cover :: covers) area r := by
  have hkept := h area cover p harea hp
  refine ⟨hr.kind_of, hr.within.trans hkept.within, fun c hc => ?_⟩
  rcases List.mem_cons.mp hc with rfl | hc
  · exact (hkept.beside c (List.mem_singleton_self _)).mono hr.within
  · exact hr.beside c hc

end

end Rect

/-! ### A largest one -/

section

variable {β γ : Type} [LinearOrder γ] (f : β → γ)

/-- The first of the greatest under `f`. -/
theorem foldl_greatest_spec (rest : List β) (start : β) :
    (rest.foldl (fun best q => if f best < f q then q else best) start) ∈ start :: rest ∧
      ∀ p ∈ start :: rest,
        f p ≤ f (rest.foldl (fun best q => if f best < f q then q else best) start) := by
  induction rest generalizing start with
  | nil => exact ⟨List.mem_cons_self, fun p hp => by rw [List.mem_singleton.mp hp]; exact le_rfl⟩
  | cons q rest ih =>
    rw [List.foldl_cons]
    split_ifs with hlt
    · obtain ⟨hmem, hmax⟩ := ih q
      refine ⟨List.mem_cons_of_mem _ hmem, fun p hp => ?_⟩
      rcases List.mem_cons.mp hp with rfl | hp
      · exact hlt.le.trans (hmax q List.mem_cons_self)
      · exact hmax p hp
    · obtain ⟨hmem, hmax⟩ := ih start
      refine ⟨?_, fun p hp => ?_⟩
      · rcases List.mem_cons.mp hmem with heq | hmem
        · rw [heq]
          exact List.mem_cons_self
        · exact List.mem_cons_of_mem _ (List.mem_cons_of_mem _ hmem)
      · rcases List.mem_cons.mp hp with rfl | hp
        · exact hmax _ List.mem_cons_self
        · rcases List.mem_cons.mp hp with rfl | hp
          · exact (not_lt.mp hlt).trans (hmax _ List.mem_cons_self)
          · exact hmax p (List.mem_cons_of_mem _ hp)

end

end Lib
