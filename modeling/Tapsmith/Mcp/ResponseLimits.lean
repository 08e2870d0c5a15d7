import Mathlib.Data.List.Forall2
import Mathlib.Data.List.Induction
import Mathlib.Data.Finset.Lattice.Fold
import Mathlib.Data.Finset.Range
import Mathlib.Data.Nat.Digits.Defs
import Tapsmith.Lib.Utf16
import Tapsmith.Lib.Within

namespace Tapsmith.Mcp.ResponseLimits

open Lib Lib.Utf16 Lib.Within

/-!
# What a tool's response may hold

`mcp/response-limits.ts`: texts are cut in the middle, and images dropped, to budgets of bytes as
they are serialised. Sizes are exact: a double holds those of every string.

* `headWithin`, `tailWithin`, `truncateMiddle` — cutting one text;
* `boundToolResult` — the items of a result;
* `headWithin_spec`, `tailWithin_spec`, `cutLoop_spec` — what is kept of a text;
* `responses_bounded` — what is kept of every text, and of the items of every result.
-/

/-! ### Sizing -/

def MCP_TEXT_BUDGET_BYTES : ℕ := 100 * 1024
def MCP_IMAGE_BUDGET_BYTES : ℕ := 5 * 1024 * 1024
def MIN_ITEM_BYTES : ℕ := 256
def MARKER_RESERVE_BYTES : ℕ := 1024

def codePointCost (cp : ℕ) : ℕ :=
  if cp = 0x22 ∨ cp = 0x5c then 2
  else if cp < 0x20 then
    if cp = 0x08 ∨ cp = 0x09 ∨ cp = 0x0a ∨ cp = 0x0c ∨ cp = 0x0d then 2 else 6
  else if cp < 0x80 then 1
  else if cp < 0x800 then 2
  else if 0xd800 ≤ cp ∧ cp ≤ 0xdfff then 6
  else if cp < 0x10000 then 3
  else 4

def serializedTextBytes : List UInt16 → ℕ
  | [] => 0
  | [c] => codePointCost c.toNat
  | c :: d :: rest =>
    let cp := codePoint (c :: d :: rest)
    codePointCost cp +
      if cp > 0xffff then serializedTextBytes rest else serializedTextBytes (d :: rest)

/-- The loop of `headWithin` over what is left of the text. -/
def headLoop (maxBytes : ℕ) : ℕ → List UInt16 → List UInt16
  | _, [] => []
  | used, [c] => if used + codePointCost c.toNat > maxBytes then [] else [c]
  | used, c :: d :: rest =>
    let cp := codePoint (c :: d :: rest)
    if used + codePointCost cp > maxBytes then []
    else if cp > 0xffff then c :: d :: headLoop maxBytes (used + codePointCost cp) rest
    else c :: headLoop maxBytes (used + codePointCost cp) (d :: rest)

def headWithin (text : List UInt16) (maxBytes : ℕ) : List UInt16 := headLoop maxBytes 0 text

/-- The loop of `tailWithin`: what is left of the text and what is kept, both from the end. -/
def tailLoop (maxBytes : ℕ) : ℕ → List UInt16 → List UInt16
  | _, [] => []
  | used, [low] => if used + codePointCost low.toNat > maxBytes then [] else [low]
  | used, low :: high :: rest =>
    if isLow low = true ∧ isHigh high = true then
      let cost := codePointCost (codePoint [high, low])
      if used + cost > maxBytes then [] else low :: high :: tailLoop maxBytes (used + cost) rest
    else
      let cost := codePointCost low.toNat
      if used + cost > maxBytes then []
      else low :: tailLoop maxBytes (used + cost) (high :: rest)

def tailWithin (text : List UInt16) (maxBytes : ℕ) : List UInt16 :=
  (tailLoop maxBytes 0 text.reverse).reverse

/-- `(bytes / unit).toFixed(1)`: the quotient is exact, and halves are rounded up. -/
def toFixed1 (bytes unit : ℕ) : String :=
  let tenths := (bytes * 20 + unit) / (2 * unit)
  toString (tenths / 10) ++ "." ++ toString (tenths % 10)

def formatBytes (bytes : ℕ) : String :=
  if bytes < 1024 then toString bytes ++ " B"
  else if bytes < 1024 * 1024 then toFixed1 bytes 1024 ++ " KiB"
  else toFixed1 bytes (1024 * 1024) ++ " MiB"

/-! ### Truncation -/

/-- ` ${hint}` if there is one. -/
def hintText (hint : Option (List UInt16)) : List UInt16 :=
  if hint.getD [] = [] then [] else units " " ++ hint.getD []

def marker (hint : Option (List UInt16)) (omitted : ℕ) : List UInt16 :=
  units "\n\n[… " ++ units (formatBytes omitted) ++
    units " omitted here: the response exceeded Tapsmith's MCP response limit." ++ hintText hint ++
    units "]\n\n"

/-- The text with `keep` bytes of it kept; the head's share is `Math.floor(keep * 0.6)`. -/
def cutKeeping (text : List UInt16) (hint : Option (List UInt16)) (keep : ℕ) : List UInt16 :=
  let head := headWithin text (keep * 3 / 5)
  let tail := tailWithin (text.drop head.length) (keep - serializedTextBytes head)
  let omitted := serializedTextBytes text - serializedTextBytes head - serializedTextBytes tail
  head ++ marker hint omitted ++ tail

/-- The loop of `truncateMiddle`. -/
def cutLoop (text : List UInt16) (maxBytes : ℕ) (hint : Option (List UInt16)) (keep : ℕ) :
    List UInt16 :=
  let cut := cutKeeping text hint keep
  if serializedTextBytes cut ≤ maxBytes then cut
  else if keep = 0 then headWithin cut maxBytes
  else cutLoop text maxBytes hint (keep - (serializedTextBytes cut - maxBytes))
termination_by keep
decreasing_by
  have hover : maxBytes < serializedTextBytes (cutKeeping text hint keep) := Nat.lt_of_not_le ‹_›
  omega

def truncateMiddle (text : List UInt16) (maxBytes : ℕ) (hint : Option (List UInt16)) :
    List UInt16 :=
  let size := serializedTextBytes text
  if size ≤ maxBytes then text
  else cutLoop text maxBytes hint (maxBytes - serializedTextBytes (marker hint size))

/-! ### The items of a result -/

/-- The names without an entry of their own have no hint. -/
def truncationHint (toolName : String) : Option (List UInt16) :=
  if toolName = "tapsmith_run_tests" then some (units <|
    "Use tapsmith_list_results (status \"failed\", or test \"<name>\") for each failure, " ++
    "and tapsmith_read_trace on its trace for the full detail.")
  else if toolName = "tapsmith_list_results" then some (units <|
    "Narrow it with the status, file or test filters to see the omitted results in full.")
  else if toolName = "tapsmith_list_tests" then some (units <|
    "Pass the file paths you need to tapsmith_run_tests, or read them directly, " ++
    "for the omitted part of the tree.")
  else if toolName = "tapsmith_suite_status" then some (units <|
    "Pass file to narrow the board; tapsmith_list_results has the latest run's results in full.")
  else if toolName = "tapsmith_snapshot" then some (units <|
    "The middle of the accessibility tree was omitted; " ++
    "use tapsmith_test_locator to check a specific locator.")
  else if toolName = "tapsmith_read_trace" then some (units <|
    "The trace's first and last steps are kept, with the Result section at the top; " ++
    "a failed step it names may be in the part left out.")
  else none

/-- An item of a result; `rest` are the fields that nothing here reads. -/
inductive ContentItem (ρ : Type)
  | text (text : List UInt16) (rest : ρ)
  | image (data : List UInt16) (rest : ρ)
  | audio (data : List UInt16) (rest : ρ)
  | other (rest : ρ)
deriving DecidableEq

structure CallToolResult (ρ : Type) where
  content : Option (List (ContentItem ρ))
  rest : ρ

variable {ρ : Type}

/-- The size of a text item, and 0 for the others. -/
def textSize : ContentItem ρ → ℕ
  | .text text _ => serializedTextBytes text
  | _ => 0

def isText : ContentItem ρ → Bool
  | .text _ _ => true
  | _ => false

def binaryData : ContentItem ρ → Option (List UInt16)
  | .image data _ => some data
  | .audio data _ => some data
  | _ => none

def binarySize (item : ContentItem ρ) : ℕ := ((binaryData item).map List.length).getD 0

/-- What every text item keeps at least. -/
def itemFloor (content : List (ContentItem ρ)) : ℕ :=
  min MIN_ITEM_BYTES
    ((MCP_TEXT_BUDGET_BYTES - MARKER_RESERVE_BYTES) / max 1 (content.countP isText))

/-- The variables of the loop over the items. -/
structure Bounding (ρ : Type) where
  textLeft : ℤ
  textItemsLeft : ℤ
  imageLeft : ℤ
  droppedImages : ℕ
  droppedImageBytes : ℕ
  bounded : List (ContentItem ρ)

def boundItem (floor : ℕ) (hint : Option (List UInt16)) (s : Bounding ρ) :
    ContentItem ρ → Bounding ρ
  | .text text rest =>
    let textItemsLeft := s.textItemsLeft - 1
    let reserve := textItemsLeft * floor
    let allowed := (max (floor : ℤ) (s.textLeft - reserve)).toNat
    let size := serializedTextBytes text
    if size ≤ allowed then
      { s with
        textItemsLeft := textItemsLeft
        textLeft := s.textLeft - size
        bounded := s.bounded ++ [.text text rest] }
    else
      let cut := if allowed > MARKER_RESERVE_BYTES then truncateMiddle text allowed hint
        else headWithin text allowed
      { s with
        textItemsLeft := textItemsLeft
        textLeft := s.textLeft - serializedTextBytes cut
        bounded := s.bounded ++ [.text cut rest] }
  | item =>
    if (binaryData item).isSome = true then
      if (binarySize item : ℤ) ≤ s.imageLeft then
        { s with imageLeft := s.imageLeft - binarySize item, bounded := s.bounded ++ [item] }
      else
        { s with
          droppedImages := s.droppedImages + 1
          droppedImageBytes := s.droppedImageBytes + binarySize item }
    else { s with bounded := s.bounded ++ [item] }

/-- The note about dropped images. -/
def imageNote (hint : Option (List UInt16)) (droppedImages droppedImageBytes : ℕ) : List UInt16 :=
  units ("[" ++ toString droppedImages ++ " image(s) omitted (" ++ formatBytes droppedImageBytes ++
    " of base64): the response exceeded Tapsmith's " ++ formatBytes MCP_IMAGE_BUDGET_BYTES ++
    " MCP image limit.") ++ hintText hint ++ units "]"

/-- `fresh` are the other fields of an item that is made here: it has none. -/
def boundToolResult (fresh : ρ) (result : CallToolResult ρ) (toolName : Option String) :
    CallToolResult ρ :=
  let content := result.content.getD []
  let hint := toolName.bind truncationHint
  if (content.map textSize).sum ≤ MCP_TEXT_BUDGET_BYTES ∧
      (content.map binarySize).sum ≤ MCP_IMAGE_BUDGET_BYTES then result
  else
    let s := content.foldl (boundItem (itemFloor content) hint)
      ⟨MCP_TEXT_BUDGET_BYTES, content.countP isText, MCP_IMAGE_BUDGET_BYTES, 0, 0, []⟩
    let note := if s.droppedImages > 0 then
      [.text (imageNote hint s.droppedImages s.droppedImageBytes) fresh] else []
    { result with content := some (s.bounded ++ note) }

/-! ### Sizes of characters -/

def charCost (x : List UInt16) : ℕ := codePointCost (codePoint x)

theorem codePointCost_pos (cp : ℕ) : 0 < codePointCost cp := by
  unfold codePointCost
  split_ifs <;> decide

theorem codePointCost_le (cp : ℕ) : codePointCost cp ≤ 6 := by
  unfold codePointCost
  split_ifs <;> decide

theorem codePoint_pair {c d : UInt16} (hpair : isHigh c = true ∧ isLow d = true)
    (rest : List UInt16) : codePoint (c :: d :: rest) = pairValue c d := if_pos hpair

theorem codePoint_unit {c d : UInt16} (hpair : ¬ (isHigh c = true ∧ isLow d = true))
    (rest : List UInt16) : codePoint (c :: d :: rest) = c.toNat := if_neg hpair

theorem charCost_pair {c d : UInt16} (hpair : isHigh c = true ∧ isLow d = true) :
    charCost [c, d] = codePointCost (pairValue c d) := congrArg codePointCost (if_pos hpair)

/-- The size of a text is that of its characters. -/
theorem serializedTextBytes_eq (s : List UInt16) :
    serializedTextBytes s = total charCost (characters s) := by
  induction s using characters.induct with
  | case1 => rfl
  | case2 c => rfl
  | case3 c d rest hpair ih =>
    rw [serializedTextBytes, characters_pair hpair, total_cons, codePoint_pair hpair,
      if_pos (pairValue_gt c d), charCost_pair hpair, ih]
  | case4 c d rest hpair ih =>
    rw [serializedTextBytes, characters_unit hpair, total_cons, codePoint_unit hpair,
      if_neg (Nat.not_lt.mpr (toNat_le c)), ih]
    rfl

theorem serializedTextBytes_append {s t : List UInt16} (h : ¬ Splits s t) :
    serializedTextBytes (s ++ t) = serializedTextBytes s + serializedTextBytes t := by
  rw [serializedTextBytes_eq, characters_append h, total_append, ← serializedTextBytes_eq,
    ← serializedTextBytes_eq]

theorem serializedTextBytes_eq_zero {s : List UInt16} : serializedTextBytes s = 0 ↔ s = [] := by
  constructor
  · intro h
    cases hs : characters s with
    | nil => rw [← flatten_characters s, hs, List.flatten_nil]
    | cons x xs =>
      rw [serializedTextBytes_eq, hs, total_cons] at h
      have hpos : 0 < charCost x := codePointCost_pos _
      omega
  · rintro rfl
    rfl

theorem serializedTextBytes_le (s : List UInt16) : serializedTextBytes s ≤ 6 * s.length := by
  induction s using characters.induct with
  | case1 => exact Nat.zero_le _
  | case2 c => exact codePointCost_le _
  | case3 c d rest hpair ih =>
    have hcost := codePointCost_le (pairValue c d)
    rw [serializedTextBytes, codePoint_pair hpair, if_pos (pairValue_gt c d), List.length_cons,
      List.length_cons]
    omega
  | case4 c d rest hpair ih =>
    have hcost := codePointCost_le c.toNat
    rw [serializedTextBytes, codePoint_unit hpair, if_neg (Nat.not_lt.mpr (toNat_le c)),
      List.length_cons]
    omega

/-! ### Heads and tails -/

theorem headLoop_eq (maxBytes used : ℕ) (s : List UInt16) :
    headLoop maxBytes used s = (takeWithin charCost maxBytes used (characters s)).flatten := by
  induction s using characters.induct generalizing used with
  | case1 => rfl
  | case2 c =>
    show (if used + codePointCost c.toNat > maxBytes then [] else [c]) =
      (if used + codePointCost c.toNat > maxBytes then [] else [[c]]).flatten
    split_ifs <;> rfl
  | case3 c d rest hpair ih =>
    rw [headLoop, characters_pair hpair, takeWithin, codePoint_pair hpair, charCost_pair hpair,
      if_pos (pairValue_gt c d), ih]
    split_ifs <;> rfl
  | case4 c d rest hpair ih =>
    rw [headLoop, characters_unit hpair, takeWithin, codePoint_unit hpair,
      if_neg (Nat.not_lt.mpr (toNat_le c)), ih]
    show (if used + codePointCost c.toNat > maxBytes then [] else _) =
      (if used + codePointCost c.toNat > maxBytes then [] else _).flatten
    split_ifs <;> rfl

/-- Reading a text from the end. -/
theorem characters_concat_pair {low high : UInt16} (hpair : isHigh high = true ∧ isLow low = true)
    (rest : List UInt16) :
    (characters (low :: high :: rest).reverse).reverse =
      [high, low] :: (characters rest.reverse).reverse := by
  have hcut : ¬ Splits rest.reverse [high, low] := by
    intro hsplit
    have hlow : isLow high = true := hsplit.2
    rw [isLow_of_isHigh hpair.1] at hlow
    cases hlow
  have htext : (low :: high :: rest).reverse = rest.reverse ++ [high, low] := by
    rw [List.reverse_cons, List.reverse_cons, List.append_assoc]
    rfl
  rw [htext, characters_append hcut, characters_pair hpair, List.reverse_append]
  rfl

theorem characters_concat_unit {low : UInt16} {rest : List UInt16}
    (hcut : ¬ Splits rest.reverse [low]) :
    (characters (low :: rest).reverse).reverse = [low] :: (characters rest.reverse).reverse := by
  rw [List.reverse_cons, characters_append hcut, List.reverse_append]
  rfl

/-- The loop from the end is the loop over the characters from the end. -/
theorem tailLoop_eq (maxBytes used : ℕ) (r : List UInt16) :
    (tailLoop maxBytes used r).reverse =
      (takeWithin charCost maxBytes used (characters r.reverse).reverse).reverse.flatten := by
  have hkept : ∀ (x : List UInt16) (ys : List (List UInt16)) (s : List UInt16),
      s.reverse = ys.reverse.flatten → (x.reverse ++ s).reverse = (x :: ys).reverse.flatten := by
    intro x ys s h
    rw [List.reverse_append, h, List.reverse_reverse, List.reverse_cons, List.flatten_append,
      List.flatten_singleton]
  induction r using List.twoStepInduction generalizing used with
  | nil => rfl
  | singleton low =>
    show (if used + charCost [low] > maxBytes then [] else [low]).reverse =
      (if used + charCost [low] > maxBytes then [] else [[low]]).reverse.flatten
    split_ifs <;> rfl
  | cons_cons low high rest ih ih' =>
    rw [tailLoop]
    by_cases hpair : isLow low = true ∧ isHigh high = true
    · rw [if_pos hpair, characters_concat_pair hpair.symm, takeWithin]
      show (if used + charCost [high, low] > maxBytes then [] else _).reverse = _
      split_ifs with hover
      · rfl
      · exact hkept [high, low] _ _ (ih _)
    · have hcut : ¬ Splits (high :: rest).reverse [low] := by
        intro hsplit
        have hhigh := hsplit.1
        rw [List.getLast?_reverse] at hhigh
        exact hpair ⟨hsplit.2, hhigh⟩
      rw [if_neg hpair, characters_concat_unit hcut, takeWithin]
      show (if used + charCost [low] > maxBytes then [] else _).reverse = _
      split_ifs with hover
      · rfl
      · exact hkept [low] _ _ (ih' high _)

/-- **The head** is the longest front of whole characters within the bytes. -/
theorem headWithin_spec (text : List UInt16) (maxBytes : ℕ) :
    ∃ rest, text = headWithin text maxBytes ++ rest ∧ ¬ Splits (headWithin text maxBytes) rest ∧
      serializedTextBytes (headWithin text maxBytes) ≤ maxBytes ∧
      ∀ y ∈ (characters rest).head?,
        maxBytes < serializedTextBytes (headWithin text maxBytes) + charCost y := by
  obtain ⟨ys, hsplit, hfits, hnext⟩ :=
    takeWithin_spec charCost (characters text) (Nat.zero_le maxBytes)
  have hhead : headWithin text maxBytes = _ := headLoop_eq maxBytes 0 text
  obtain ⟨hcut, htaken, hrest⟩ := cut_at hsplit
  rw [Nat.zero_add] at hfits hnext
  have hsize : serializedTextBytes (headWithin text maxBytes) =
      total charCost (takeWithin charCost maxBytes 0 (characters text)) := by
    rw [serializedTextBytes_eq, hhead, htaken]
  refine ⟨ys.flatten, ?_, ?_, ?_, ?_⟩
  · rw [hhead, ← List.flatten_append, ← hsplit, flatten_characters]
  · rw [hhead]
    exact hcut
  · rw [hsize]
    exact hfits
  · rw [hsize, hrest]
    exact hnext

/-- **The tail** is the longest back of whole characters within the bytes. -/
theorem tailWithin_spec (text : List UInt16) (maxBytes : ℕ) :
    ∃ front, text = front ++ tailWithin text maxBytes ∧
      ¬ Splits front (tailWithin text maxBytes) ∧
      serializedTextBytes (tailWithin text maxBytes) ≤ maxBytes ∧
      ∀ y ∈ (characters front).getLast?,
        maxBytes < serializedTextBytes (tailWithin text maxBytes) + charCost y := by
  obtain ⟨ys, hsplit, hfits, hnext⟩ :=
    takeWithin_spec charCost (characters text).reverse (Nat.zero_le maxBytes)
  have htail : tailWithin text maxBytes = _ := tailLoop_eq maxBytes 0 text.reverse
  rw [List.reverse_reverse] at htail
  have hchars : characters text = ys.reverse ++
      (takeWithin charCost maxBytes 0 (characters text).reverse).reverse := by
    rw [← List.reverse_append, ← hsplit, List.reverse_reverse]
  obtain ⟨hcut, hrest, htaken⟩ := cut_at hchars
  rw [Nat.zero_add] at hfits hnext
  have hsize : serializedTextBytes (tailWithin text maxBytes) =
      total charCost (takeWithin charCost maxBytes 0 (characters text).reverse) := by
    rw [serializedTextBytes_eq, htail, htaken, total_reverse]
  refine ⟨ys.reverse.flatten, ?_, ?_, ?_, ?_⟩
  · rw [htail, ← List.flatten_append, ← hchars, flatten_characters]
  · rw [htail]
    exact hcut
  · rw [hsize]
    exact hfits
  · rw [hsize, hrest, List.getLast?_reverse]
    exact hnext

/-- What follows the head is one character at most behind the bytes. -/
theorem headWithin_lower {text rest : List UInt16} {maxBytes : ℕ}
    (hnext : ∀ y ∈ (characters rest).head?,
      maxBytes < serializedTextBytes (headWithin text maxBytes) + charCost y) (hne : rest ≠ []) :
    maxBytes ≤ serializedTextBytes (headWithin text maxBytes) + 5 := by
  cases hrest : characters rest with
  | nil => exact absurd (by rw [← flatten_characters rest, hrest, List.flatten_nil]) hne
  | cons x xs =>
    have hlt := hnext x (by rw [hrest, List.head?_cons]; exact rfl)
    have hcost : charCost x ≤ 6 := codePointCost_le _
    omega

/-! ### The marker -/

/-- A marker is kept apart from the texts around it. -/
theorem serializedTextBytes_around (p q : List UInt16) (hint : Option (List UInt16)) (n : ℕ) :
    serializedTextBytes (p ++ marker hint n ++ q) =
      serializedTextBytes p + serializedTextBytes (marker hint n) + serializedTextBytes q := by
  have hfirst : (marker hint n).head? = some 10 := rfl
  have hlast : (marker hint n).getLast? = some 10 := by
    rw [marker, List.getLast?_append_of_ne_nil _ (by decide)]
    decide
  have hne : marker hint n ≠ [] := by
    intro hnil
    rw [hnil] at hfirst
    cases hfirst
  have hbehind : ¬ Splits (p ++ marker hint n) q := by
    rw [splits_append_left hne]
    exact not_splits_of_getLast hlast rfl
  rw [serializedTextBytes_append hbehind,
    serializedTextBytes_append (not_splits_of_head hfirst rfl)]

/-- A text cut in the middle: what is kept at its two ends is at least so many bytes. -/
def Shortened (atLeast : ℕ) (hint : Option (List UInt16)) (text cut : List UInt16) : Prop :=
  ∃ p m q, text = p ++ m ++ q ∧ cut = p ++ marker hint (serializedTextBytes m) ++ q ∧
    ¬ Splits p (m ++ q) ∧ ¬ Splits (p ++ m) q ∧
    atLeast ≤ serializedTextBytes p + serializedTextBytes q

/-- **A round** keeps a head and a tail of the text, and at most 5 bytes less than it may. -/
theorem cutKeeping_spec {text : List UInt16} (hint : Option (List UInt16)) {keep : ℕ}
    (hkeep : keep < serializedTextBytes text) :
    ∃ p m q, text = p ++ m ++ q ∧ ¬ Splits p (m ++ q) ∧ ¬ Splits (p ++ m) q ∧
      serializedTextBytes text =
        serializedTextBytes p + serializedTextBytes m + serializedTextBytes q ∧
      cutKeeping text hint keep = p ++ marker hint (serializedTextBytes m) ++ q ∧
      serializedTextBytes p + serializedTextBytes q ≤ keep ∧
      keep ≤ serializedTextBytes p + serializedTextBytes q + 5 := by
  obtain ⟨rest, htext, hcut, hfits, -⟩ := headWithin_spec text (keep * 3 / 5)
  obtain ⟨m, hrest, hcut', hfits', hnext⟩ := tailWithin_spec rest
    (keep - serializedTextBytes (headWithin text (keep * 3 / 5)))
  have hshare : keep * 3 / 5 ≤ keep := by omega
  have hdrop : text.drop (headWithin text (keep * 3 / 5)).length = rest :=
    (congrArg (List.drop _) htext).trans List.drop_left
  have hsize : serializedTextBytes text = serializedTextBytes (headWithin text (keep * 3 / 5)) +
      (serializedTextBytes m + serializedTextBytes (tailWithin rest
        (keep - serializedTextBytes (headWithin text (keep * 3 / 5))))) := by
    rw [← serializedTextBytes_append hcut', ← hrest, ← serializedTextBytes_append hcut, ← htext]
  have hne : m ≠ [] := by
    rintro rfl
    rw [show serializedTextBytes [] = 0 from rfl] at hsize
    omega
  refine ⟨headWithin text (keep * 3 / 5), m,
    tailWithin rest (keep - serializedTextBytes (headWithin text (keep * 3 / 5))),
    ?_, ?_, ?_, ?_, ?_, ?_, ?_⟩
  · rw [List.append_assoc, ← hrest, ← htext]
  · rw [← hrest]
    exact hcut
  · rwa [splits_append_left hne]
  · rw [hsize, Nat.add_assoc]
  · unfold cutKeeping
    dsimp only
    rw [hdrop, hsize, Nat.add_sub_cancel_left, Nat.add_sub_cancel]
  · omega
  · cases hlast : (characters m).getLast? with
    | none =>
      rw [List.getLast?_eq_none_iff] at hlast
      exact absurd (by rw [← flatten_characters m, hlast, List.flatten_nil]) hne
    | some x =>
      have hlt := hnext x hlast
      have hcost : charCost x ≤ 6 := codePointCost_le _
      omega

/-- With nothing kept there is only the marker. -/
theorem cutKeeping_zero (text : List UInt16) (hint : Option (List UInt16)) :
    cutKeeping text hint 0 = marker hint (serializedTextBytes text) := by
  by_cases hzero : serializedTextBytes text = 0
  · rw [serializedTextBytes_eq_zero.mp hzero]
    exact List.append_nil _
  · obtain ⟨p, m, q, htext, -, -, -, hcut, hkept, -⟩ :=
      cutKeeping_spec hint (Nat.pos_of_ne_zero hzero)
    have hp := serializedTextBytes_eq_zero.mp (by omega : serializedTextBytes p = 0)
    have hq := serializedTextBytes_eq_zero.mp (by omega : serializedTextBytes q = 0)
    rw [hp, hq, List.nil_append, List.append_nil] at htext hcut
    rw [hcut, htext]

/-! ### The loop -/

theorem cutLoop_fits (text : List UInt16) (maxBytes : ℕ) (hint : Option (List UInt16)) (keep : ℕ) :
    serializedTextBytes (cutLoop text maxBytes hint keep) ≤ maxBytes := by
  induction keep using cutLoop.induct text maxBytes hint with
  | case1 keep cut hfits =>
    rw [cutLoop]
    exact (congrArg serializedTextBytes (if_pos hfits)).trans_le hfits
  | case2 cut hover =>
    rw [cutLoop]
    refine (congrArg serializedTextBytes ((if_neg hover).trans (if_pos rfl))).trans_le ?_
    obtain ⟨-, -, -, hfits, -⟩ := headWithin_spec cut maxBytes
    exact hfits
  | case3 keep cut hover hkeep ih =>
    rw [cutLoop]
    exact (congrArg serializedTextBytes ((if_neg hover).trans (if_neg hkeep))).trans_le ih

/-- **The loop** ends with a round, if a marker fits; and it never keeps less than a marker of `size`
    bytes leaves room for. -/
theorem cutLoop_spec {text : List UInt16} {maxBytes : ℕ} {hint : Option (List UInt16)} {size : ℕ}
    (hmarker : serializedTextBytes (marker hint (serializedTextBytes text)) ≤ maxBytes) {keep : ℕ}
    (hkeep : keep < serializedTextBytes text)
    (hsize : ∀ n ≤ serializedTextBytes text, serializedTextBytes (marker hint n) ≤ size)
    (hroom : maxBytes ≤ keep + size) :
    ∃ kept < serializedTextBytes text, maxBytes ≤ kept + size ∧
      cutLoop text maxBytes hint keep = cutKeeping text hint kept := by
  induction keep using cutLoop.induct text maxBytes hint with
  | case1 keep cut hfits =>
    refine ⟨keep, hkeep, hroom, ?_⟩
    rw [cutLoop]
    exact if_pos hfits
  | case2 cut hover =>
    refine absurd ?_ hover
    show serializedTextBytes (cutKeeping text hint 0) ≤ maxBytes
    rw [cutKeeping_zero]
    exact hmarker
  | case3 keep cut hover hzero ih =>
    obtain ⟨p, m, q, -, -, -, htext, hcut, hkept, -⟩ := cutKeeping_spec hint hkeep
    have hcutSize : serializedTextBytes cut = _ :=
      (congrArg serializedTextBytes hcut).trans (serializedTextBytes_around p q hint _)
    have hbound := hsize (serializedTextBytes m) (by omega)
    obtain ⟨kept, hlt, hleft, hloop⟩ := ih (by omega) (by omega)
    refine ⟨kept, hlt, hleft, ?_⟩
    rw [cutLoop]
    exact ((if_neg hover).trans (if_neg hzero)).trans hloop

/-! ### The whole truncation -/

theorem truncateMiddle_of_le {text : List UInt16} {maxBytes : ℕ} (hint : Option (List UInt16))
    (h : serializedTextBytes text ≤ maxBytes) : truncateMiddle text maxBytes hint = text := if_pos h

theorem truncateMiddle_of_lt {text : List UInt16} {maxBytes : ℕ} (hint : Option (List UInt16))
    (h : maxBytes < serializedTextBytes text) : truncateMiddle text maxBytes hint =
      cutLoop text maxBytes hint
        (maxBytes - serializedTextBytes (marker hint (serializedTextBytes text))) :=
  if_neg (Nat.not_le.mpr h)

theorem truncateMiddle_fits (text : List UInt16) (maxBytes : ℕ) (hint : Option (List UInt16)) :
    serializedTextBytes (truncateMiddle text maxBytes hint) ≤ maxBytes := by
  rcases Nat.lt_or_ge maxBytes (serializedTextBytes text) with h | h
  · rw [truncateMiddle_of_lt hint h]
    exact cutLoop_fits _ _ _ _
  · rwa [truncateMiddle_of_le hint h]

/-- With `size` bytes for the marker, at most 5 bytes more of the text are cut than have to be. -/
theorem truncateMiddle_shortened {text : List UInt16} {maxBytes : ℕ} {hint : Option (List UInt16)}
    (h : maxBytes < serializedTextBytes text)
    (hmarker : serializedTextBytes (marker hint (serializedTextBytes text)) ≤ maxBytes) {size : ℕ}
    (hsize : ∀ n ≤ serializedTextBytes text, serializedTextBytes (marker hint n) ≤ size) :
    Shortened (maxBytes - size - 5) hint text (truncateMiddle text maxBytes hint) := by
  have hfirst := hsize _ le_rfl
  have hkeep : maxBytes - serializedTextBytes (marker hint (serializedTextBytes text)) <
      serializedTextBytes text := by omega
  obtain ⟨kept, hlt, hroom, hloop⟩ := cutLoop_spec hmarker hkeep hsize (by omega)
  obtain ⟨p, m, q, htext, hp, hq, -, hcut, -, hleast⟩ := cutKeeping_spec hint hlt
  refine ⟨p, m, q, htext, ?_, hp, hq, by omega⟩
  rw [truncateMiddle_of_lt hint h, hloop, hcut]

/-- Where not even the marker fits, its front is all there is. -/
theorem truncateMiddle_of_marker {text : List UInt16} {maxBytes : ℕ}
    {hint : Option (List UInt16)} (h : maxBytes < serializedTextBytes text)
    (hmarker : maxBytes < serializedTextBytes (marker hint (serializedTextBytes text))) :
    truncateMiddle text maxBytes hint =
      headWithin (marker hint (serializedTextBytes text)) maxBytes := by
  rw [truncateMiddle_of_lt hint h, Nat.sub_eq_zero_of_le hmarker.le, cutLoop, cutKeeping_zero,
    if_neg (Nat.not_le.mpr hmarker), if_pos rfl]

/-- What a truncation does. -/
structure Truncates (text : List UInt16) (maxBytes : ℕ) (hint : Option (List UInt16)) : Prop where
  unchanged : truncateMiddle text maxBytes hint = text ↔ serializedTextBytes text ≤ maxBytes
  fits : serializedTextBytes (truncateMiddle text maxBytes hint) ≤ maxBytes
  shortened : maxBytes < serializedTextBytes text →
    serializedTextBytes (marker hint (serializedTextBytes text)) ≤ maxBytes →
    Shortened 0 hint text (truncateMiddle text maxBytes hint)
  /-- where the marker does not fit, it is cut between two characters -/
  markerCut : maxBytes < serializedTextBytes text →
    maxBytes < serializedTextBytes (marker hint (serializedTextBytes text)) →
    ∃ rest, marker hint (serializedTextBytes text) = truncateMiddle text maxBytes hint ++ rest ∧
      ¬ Splits (truncateMiddle text maxBytes hint) rest

theorem truncates (text : List UInt16) (maxBytes : ℕ) (hint : Option (List UInt16)) :
    Truncates text maxBytes hint where
  unchanged := by
    refine ⟨fun heq => ?_, truncateMiddle_of_le hint⟩
    have hfits := truncateMiddle_fits text maxBytes hint
    rwa [heq] at hfits
  fits := truncateMiddle_fits text maxBytes hint
  shortened h hmarker := by
    have hsize : ∀ n ≤ serializedTextBytes text, serializedTextBytes (marker hint n) ≤
        (Finset.range (serializedTextBytes text + 1)).sup fun n =>
          serializedTextBytes (marker hint n) := fun n hn =>
      Finset.le_sup (f := fun n => serializedTextBytes (marker hint n))
        (Finset.mem_range.mpr (Nat.lt_succ_of_le hn))
    obtain ⟨p, m, q, htext, hcut, hp, hq, -⟩ := truncateMiddle_shortened h hmarker hsize
    exact ⟨p, m, q, htext, hcut, hp, hq, Nat.zero_le _⟩
  markerCut h hmarker := by
    obtain ⟨rest, hrest, hsplit, -, -⟩ :=
      headWithin_spec (marker hint (serializedTextBytes text)) maxBytes
    rw [truncateMiddle_of_marker h hmarker]
    exact ⟨rest, hrest, hsplit⟩

/-! ### The size of a marker -/

theorem length_toString_le {n e : ℕ} (he : 0 < e) (h : n < 10 ^ e) : (toString n).length ≤ e :=
  Nat.repr_length n e he h

theorem length_toFixed1_le {bytes unit : ℕ} (h : (bytes * 20 + unit) / (2 * unit) / 10 < 10 ^ 11) :
    (toFixed1 bytes unit).length ≤ 13 := by
  have hwhole := length_toString_le (by decide) h
  have htenth : (toString ((bytes * 20 + unit) / (2 * unit) % 10)).length ≤ 1 :=
    length_toString_le (by decide) (Nat.mod_lt _ (by decide))
  unfold toFixed1
  dsimp only
  rw [String.length_append, String.length_append]
  have hdot : ".".length = 1 := rfl
  omega

theorem length_formatBytes_le {n : ℕ} (h : n < 2 ^ 56) : (formatBytes n).length ≤ 17 := by
  unfold formatBytes
  split_ifs with hbytes hkib
  · have hdigits : (toString n).length ≤ 4 := length_toString_le (by decide) (by omega)
    have hunit : " B".length = 2 := rfl
    rw [String.length_append]
    omega
  · have hdigits : (toFixed1 n 1024).length ≤ 13 := length_toFixed1_le (by omega)
    have hunit : " KiB".length = 4 := rfl
    rw [String.length_append]
    omega
  · have hdigits : (toFixed1 n (1024 * 1024)).length ≤ 13 := length_toFixed1_le (by omega)
    have hunit : " MiB".length = 4 := rfl
    rw [String.length_append]
    omega

/-- No hint of a tool is long. -/
theorem hintText_le (toolName : Option String) :
    serializedTextBytes (hintText (toolName.bind truncationHint)) ≤ 200 := by
  cases toolName with
  | none => decide
  | some name =>
    rw [Option.bind_some, truncationHint]
    split_ifs <;> decide +kernel

theorem marker_le (toolName : Option String) {n : ℕ} (h : n < 2 ^ 56) :
    serializedTextBytes (marker (toolName.bind truncationHint) n) ≤ 500 := by
  have hformat := serializedTextBytes_le (units (formatBytes n))
  have hlength := length_units_le (formatBytes n)
  have hchars := length_formatBytes_le h
  have hhint := hintText_le toolName
  have hopen : (units "\n\n[… ").getLast? = some 32 := rfl
  have hbehind : (units
      " omitted here: the response exceeded Tapsmith's MCP response limit.").head? = some 32 := rfl
  have hlimit : (units
      " omitted here: the response exceeded Tapsmith's MCP response limit.").getLast? = some 46 := by
    decide +kernel
  have hclose : (units "]\n\n").head? = some 93 := rfl
  have hsplit : ¬ Splits (units "\n\n[… " ++ units (formatBytes n) ++
      units " omitted here: the response exceeded Tapsmith's MCP response limit.")
      (hintText (toolName.bind truncationHint)) := by
    rw [splits_append_left (by decide)]
    exact not_splits_of_getLast hlimit rfl
  rw [marker, serializedTextBytes_append (not_splits_of_head hclose rfl),
    serializedTextBytes_append hsplit, serializedTextBytes_append (not_splits_of_head hbehind rfl),
    serializedTextBytes_append (not_splits_of_getLast hopen rfl)]
  have hfirst : serializedTextBytes (units "\n\n[… ") = 9 := by decide +kernel
  have hsecond : serializedTextBytes (units
      " omitted here: the response exceeded Tapsmith's MCP response limit.") ≤ 80 := by
    decide +kernel
  have hthird : serializedTextBytes (units "]\n\n") = 5 := by decide +kernel
  omega

/-! ### One item -/

/-- What the loop allows a text item. -/
def allowance (floor : ℕ) (s : Bounding ρ) : ℕ :=
  (max (floor : ℤ) (s.textLeft - (s.textItemsLeft - 1) * floor)).toNat

/-- What is kept of a text. -/
def boundText (allowed : ℕ) (hint : Option (List UInt16)) (text : List UInt16) : List UInt16 :=
  if serializedTextBytes text ≤ allowed then text
  else if allowed > MARKER_RESERVE_BYTES then truncateMiddle text allowed hint
  else headWithin text allowed

theorem boundItem_text (floor : ℕ) (hint : Option (List UInt16)) (s : Bounding ρ)
    (text : List UInt16) (rest : ρ) :
    boundItem floor hint s (.text text rest) =
      { s with
        textItemsLeft := s.textItemsLeft - 1
        textLeft := s.textLeft - serializedTextBytes (boundText (allowance floor s) hint text)
        bounded := s.bounded ++ [.text (boundText (allowance floor s) hint text) rest] } := by
  by_cases hfits : serializedTextBytes text ≤ allowance floor s
  · rw [boundText, if_pos hfits]
    exact if_pos hfits
  · rw [boundText, if_neg hfits]
    exact if_neg hfits

/-- A cut text is a front of it, of the whole characters that the floor holds at least, or is
    shortened in the middle to the floor at least. -/
def CutText (floor : ℕ) (hint : Option (List UInt16)) (text cut : List UInt16) : Prop :=
  (∃ rest, text = cut ++ rest ∧ ¬ Splits cut rest ∧
    ∀ y ∈ (characters rest).head?, floor < serializedTextBytes cut + charCost y) ∨
  Shortened floor hint text cut

theorem boundText_spec {floor allowed : ℕ} {toolName : Option String} {text : List UInt16}
    (hfloor : floor ≤ MIN_ITEM_BYTES) (hallowed : floor ≤ allowed) (hlength : text.length < 2 ^ 53) :
    (boundText allowed (toolName.bind truncationHint) text = text ∨
      CutText floor (toolName.bind truncationHint) text
        (boundText allowed (toolName.bind truncationHint) text)) ∧
    serializedTextBytes (boundText allowed (toolName.bind truncationHint) text) ≤ allowed := by
  unfold boundText
  split_ifs with hfits hmiddle
  · exact ⟨.inl rfl, hfits⟩
  · refine ⟨.inr (.inr ?_), truncateMiddle_fits _ _ _⟩
    have hsize := serializedTextBytes_le text
    have hmarker : ∀ n ≤ serializedTextBytes text,
        serializedTextBytes (marker (toolName.bind truncationHint) n) ≤ 500 :=
      fun n hn => marker_le toolName (by omega)
    have hreserve : 1024 < allowed := hmiddle
    have hmin : floor ≤ 256 := hfloor
    obtain ⟨p, m, q, htext, hcut, hp, hq, hkept⟩ := truncateMiddle_shortened
      (Nat.lt_of_not_le hfits) ((hmarker _ le_rfl).trans (by omega)) hmarker
    exact ⟨p, m, q, htext, hcut, hp, hq, by omega⟩
  · obtain ⟨rest, htext, hsplit, hsize, hnext⟩ := headWithin_spec text allowed
    exact ⟨.inr (.inl ⟨rest, htext, hsplit, fun y hy => hallowed.trans_lt (hnext y hy)⟩), hsize⟩

/-! ### All items -/

/-- Every item is kept, but a text may be cut and an image or an audio dropped. -/
inductive Keeps (floor : ℕ) (hint : Option (List UInt16)) :
    List (ContentItem ρ) → List (ContentItem ρ) → Prop
  | nil : Keeps floor hint [] []
  | whole {items kept : List (ContentItem ρ)} (item : ContentItem ρ) :
    Keeps floor hint items kept → Keeps floor hint (item :: items) (item :: kept)
  | cut {items kept : List (ContentItem ρ)} {text shorter : List UInt16} (rest : ρ) :
    CutText floor hint text shorter → Keeps floor hint items kept →
    Keeps floor hint (.text text rest :: items) (.text shorter rest :: kept)
  | dropped {items kept : List (ContentItem ρ)} {item : ContentItem ρ} :
    (binaryData item).isSome = true → Keeps floor hint items kept →
    Keeps floor hint (item :: items) kept

theorem Keeps.refl (floor : ℕ) (hint : Option (List UInt16)) (items : List (ContentItem ρ)) :
    Keeps floor hint items items := by
  induction items with
  | nil => exact .nil
  | cons item items ih => exact .whole item ih

/-- What the loop comes to: what it keeps is within what it has left, and it counts what it drops. -/
structure Bounds (floor : ℕ) (hint : Option (List UInt16)) (s s' : Bounding ρ)
    (items kept : List (ContentItem ρ)) : Prop where
  keeps : Keeps floor hint items kept
  bounded : s'.bounded = s.bounded ++ kept
  text : ((kept.map textSize).sum : ℤ) ≤ s.textLeft
  binary : ((kept.map binarySize).sum : ℤ) ≤ s.imageLeft
  images : s'.droppedImages + kept.length = s.droppedImages + items.length
  bytes : s'.droppedImageBytes + (kept.map binarySize).sum =
    s.droppedImageBytes + (items.map binarySize).sum

/-- An item that is neither a text nor binary is kept; binary data is kept or counted. -/
theorem boundItem_binary {floor : ℕ} {hint : Option (List UInt16)} {s : Bounding ρ}
    {item : ContentItem ρ} (htext : isText item = false) :
    boundItem floor hint s item =
      if (binaryData item).isSome = true then
        if (binarySize item : ℤ) ≤ s.imageLeft then
          { s with imageLeft := s.imageLeft - binarySize item, bounded := s.bounded ++ [item] }
        else
          { s with
            droppedImages := s.droppedImages + 1
            droppedImageBytes := s.droppedImageBytes + binarySize item }
      else { s with bounded := s.bounded ++ [item] } := by
  cases item with
  | text t r => cases htext
  | image d r => rfl
  | audio d r => rfl
  | other r => rfl

/-- **The loop** keeps room for the floor of every text item to come. -/
theorem boundItems_spec {floor : ℕ} {toolName : Option String} (hfloor : floor ≤ MIN_ITEM_BYTES)
    (items : List (ContentItem ρ)) (s : Bounding ρ)
    (hlength : ∀ item ∈ items, ∀ text rest, item = .text text rest → text.length < 2 ^ 53)
    (hcount : s.textItemsLeft = items.countP isText)
    (hroom : s.textItemsLeft * floor ≤ s.textLeft) (himages : 0 ≤ s.imageLeft) :
    ∃ kept, Bounds floor (toolName.bind truncationHint) s
      (items.foldl (boundItem floor (toolName.bind truncationHint)) s) items kept := by
  induction items generalizing s with
  | nil =>
    rw [List.countP_nil] at hcount
    rw [hcount] at hroom
    refine ⟨[], .nil, (List.append_nil _).symm, ?_, himages, rfl, rfl⟩
    simpa using hroom
  | cons item items ih =>
    have hrest : ∀ item ∈ items, ∀ text rest, item = .text text rest → text.length < 2 ^ 53 :=
      fun item hitem => hlength item (List.mem_cons_of_mem _ hitem)
    rw [List.foldl_cons]
    cases htext : isText item with
    | true =>
      obtain ⟨text, rest, rfl⟩ : ∃ text rest, item = .text text rest := by
        cases item with
        | text t r => exact ⟨t, r, rfl⟩
        | image d r => cases htext
        | audio d r => cases htext
        | other r => cases htext
      rw [List.countP_cons_of_pos htext] at hcount
      have hreserve : (s.textItemsLeft - 1) * floor + floor = s.textItemsLeft * floor := by ring
      have hallowed : (allowance floor s : ℤ) = s.textLeft - (s.textItemsLeft - 1) * floor := by
        rw [allowance, Int.toNat_of_nonneg (le_max_of_le_left (Int.natCast_nonneg floor)),
          max_eq_right (by omega)]
      obtain ⟨hkept, hsize⟩ := @boundText_spec floor (allowance floor s) toolName text hfloor
        (by omega) (hlength _ List.mem_cons_self text rest rfl)
      rw [boundItem_text]
      obtain ⟨kept, hkeeps, hbounded, hleft, hbinary, hdropped, hbytes⟩ := ih
        { s with
          textItemsLeft := s.textItemsLeft - 1
          textLeft := s.textLeft - serializedTextBytes
            (boundText (allowance floor s) (toolName.bind truncationHint) text)
          bounded := s.bounded ++
            [.text (boundText (allowance floor s) (toolName.bind truncationHint) text) rest] }
        hrest (by dsimp only; omega) (by dsimp only; omega) himages
      refine ⟨.text (boundText (allowance floor s) (toolName.bind truncationHint) text) rest :: kept,
        ?_, ?_, ?_, ?_, ?_, ?_⟩
      · rcases hkept with heq | hcut
        · rw [heq]
          exact .whole _ hkeeps
        · exact .cut rest hcut hkeeps
      · rw [hbounded, List.append_assoc]
        rfl
      · rw [List.map_cons, List.sum_cons, Nat.cast_add]
        show (serializedTextBytes _ : ℤ) + _ ≤ _
        dsimp only at hleft
        omega
      · rw [List.map_cons, List.sum_cons]
        show ((0 + _ : ℕ) : ℤ) ≤ _
        rwa [Nat.zero_add]
      · rw [List.length_cons, List.length_cons]
        dsimp only at hdropped
        omega
      · rw [List.map_cons, List.map_cons, List.sum_cons, List.sum_cons]
        show _ + (0 + _) = _ + (0 + _)
        rwa [Nat.zero_add, Nat.zero_add]
    | false =>
      rw [List.countP_cons_of_neg (by rw [htext]; exact Bool.false_ne_true)] at hcount
      have htextSize : textSize item = 0 := by
        cases item with
        | text t r => cases htext
        | image d r => rfl
        | audio d r => rfl
        | other r => rfl
      rw [boundItem_binary htext]
      split_ifs with hbinary hfits
      · obtain ⟨kept, hkeeps, hbounded, hleft, hfit, hdropped, hbytes⟩ := ih
          { s with imageLeft := s.imageLeft - binarySize item, bounded := s.bounded ++ [item] }
          hrest hcount hroom (by dsimp only; omega)
        refine ⟨item :: kept, .whole item hkeeps, ?_, ?_, ?_, ?_, ?_⟩
        · rw [hbounded, List.append_assoc]
          rfl
        · rwa [List.map_cons, List.sum_cons, htextSize, Nat.zero_add]
        · rw [List.map_cons, List.sum_cons, Nat.cast_add]
          dsimp only at hfit
          omega
        · rw [List.length_cons, List.length_cons]
          dsimp only at hdropped
          omega
        · rw [List.map_cons, List.map_cons, List.sum_cons, List.sum_cons]
          dsimp only at hbytes
          omega
      · obtain ⟨kept, hkeeps, hbounded, hleft, hfit, hdropped, hbytes⟩ := ih
          { s with
            droppedImages := s.droppedImages + 1
            droppedImageBytes := s.droppedImageBytes + binarySize item }
          hrest hcount hroom himages
        refine ⟨kept, .dropped hbinary hkeeps, hbounded, hleft, hfit, ?_, ?_⟩
        · rw [List.length_cons]
          dsimp only at hdropped
          omega
        · rw [List.map_cons, List.sum_cons]
          dsimp only at hbytes
          omega
      · have hzero : binarySize item = 0 := by
          cases item with
          | text t r => cases htext
          | image d r => exact absurd rfl hbinary
          | audio d r => exact absurd rfl hbinary
          | other r => rfl
        obtain ⟨kept, hkeeps, hbounded, hleft, hfit, hdropped, hbytes⟩ := ih
          { s with bounded := s.bounded ++ [item] } hrest hcount hroom himages
        refine ⟨item :: kept, .whole item hkeeps, ?_, ?_, ?_, ?_, ?_⟩
        · rw [hbounded, List.append_assoc]
          rfl
        · rwa [List.map_cons, List.sum_cons, htextSize, Nat.zero_add]
        · rwa [List.map_cons, List.sum_cons, hzero, Nat.zero_add]
        · rw [List.length_cons, List.length_cons]
          dsimp only at hdropped
          omega
        · rw [List.map_cons, List.map_cons, List.sum_cons, List.sum_cons]
          dsimp only at hbytes
          omega

/-! ### The result -/

/-- There is room for the floor of every text. -/
theorem itemFloor_room (content : List (ContentItem ρ)) :
    content.countP isText * itemFloor content ≤ MCP_TEXT_BUDGET_BYTES := by
  have hfloor : itemFloor content ≤
      (MCP_TEXT_BUDGET_BYTES - MARKER_RESERVE_BYTES) / max 1 (content.countP isText) :=
    min_le_right _ _
  calc content.countP isText * itemFloor content
      ≤ max 1 (content.countP isText) *
          ((MCP_TEXT_BUDGET_BYTES - MARKER_RESERVE_BYTES) / max 1 (content.countP isText)) :=
        Nat.mul_le_mul (le_max_right _ _) hfloor
    _ ≤ MCP_TEXT_BUDGET_BYTES - MARKER_RESERVE_BYTES := Nat.mul_div_le _ _
    _ ≤ MCP_TEXT_BUDGET_BYTES := Nat.sub_le _ _

/-- Over the budgets, the result is what the loop comes to. -/
theorem boundToolResult_of_over (fresh : ρ) {result : CallToolResult ρ} {toolName : Option String}
    {content : List (ContentItem ρ)} {s : Bounding ρ} (hcontent : result.content.getD [] = content)
    (hover : ¬ ((content.map textSize).sum ≤ MCP_TEXT_BUDGET_BYTES ∧
      (content.map binarySize).sum ≤ MCP_IMAGE_BUDGET_BYTES))
    (hs : content.foldl (boundItem (itemFloor content) (toolName.bind truncationHint))
      ⟨MCP_TEXT_BUDGET_BYTES, content.countP isText, MCP_IMAGE_BUDGET_BYTES, 0, 0, []⟩ = s) :
    (boundToolResult fresh result toolName).content = some (s.bounded ++
      if s.droppedImages > 0 then
        [.text (imageNote (toolName.bind truncationHint) s.droppedImages s.droppedImageBytes) fresh]
      else []) := by
  unfold boundToolResult
  rw [hcontent]
  dsimp only
  rw [if_neg hover, hs]

/-- **A tool's response** fits: every text is truncated to its bytes with what went named, and of the
    items of a result the texts are kept in order, each whole or to the floor, within the budget, and
    so are the images, but for those that a note at the end counts. -/
theorem responses_bounded (fresh : ρ) (result : CallToolResult ρ) (toolName : Option String)
    (hlength : ∀ item ∈ result.content.getD [], ∀ text rest, item = .text text rest →
      text.length < 2 ^ 53) :
    (∀ text maxBytes hint, Truncates text maxBytes hint) ∧
    ∃ kept note, (boundToolResult fresh result toolName).content.getD [] = kept ++ note ∧
      Keeps (itemFloor (result.content.getD [])) (toolName.bind truncationHint)
        (result.content.getD []) kept ∧
      (kept.map textSize).sum ≤ MCP_TEXT_BUDGET_BYTES ∧
      (kept.map binarySize).sum ≤ MCP_IMAGE_BUDGET_BYTES ∧
      note = if kept.length < (result.content.getD []).length then
        [.text (imageNote (toolName.bind truncationHint)
          ((result.content.getD []).length - kept.length)
          (((result.content.getD []).map binarySize).sum - (kept.map binarySize).sum)) fresh]
        else [] := by
  refine ⟨truncates, ?_⟩
  generalize hcontent : result.content.getD [] = content at hlength
  by_cases hwithin : (content.map textSize).sum ≤ MCP_TEXT_BUDGET_BYTES ∧
      (content.map binarySize).sum ≤ MCP_IMAGE_BUDGET_BYTES
  · have hsame : boundToolResult fresh result toolName = result := by
      unfold boundToolResult
      rw [hcontent]
      exact if_pos hwithin
    refine ⟨content, [], ?_, .refl _ _ content, hwithin.1, hwithin.2, ?_⟩
    · rw [hsame, hcontent, List.append_nil]
    · rw [if_neg (Nat.lt_irrefl _)]
  · have hroom := itemFloor_room content
    obtain ⟨s, hs⟩ : ∃ s, content.foldl (boundItem (itemFloor content) (toolName.bind truncationHint))
      ⟨MCP_TEXT_BUDGET_BYTES, content.countP isText, MCP_IMAGE_BUDGET_BYTES, 0, 0, []⟩ = s := ⟨_, rfl⟩
    obtain ⟨kept, hkeeps, hbounded, htext, hbinary, himages, hbytes⟩ :=
      @boundItems_spec ρ (itemFloor content) toolName (min_le_left _ _) content
        ⟨MCP_TEXT_BUDGET_BYTES, content.countP isText, MCP_IMAGE_BUDGET_BYTES, 0, 0, []⟩
        hlength rfl (by dsimp only; exact_mod_cast hroom) (Int.natCast_nonneg _)
    rw [hs] at hbounded himages hbytes
    dsimp only at hbounded himages hbytes htext hbinary
    rw [List.nil_append] at hbounded
    refine ⟨kept, _, ?_, hkeeps, by exact_mod_cast htext, by exact_mod_cast hbinary, rfl⟩
    rw [boundToolResult_of_over fresh hcontent hwithin hs, Option.getD_some, hbounded,
      (by omega : s.droppedImages = content.length - kept.length),
      (by omega : s.droppedImageBytes =
        (content.map binarySize).sum - (kept.map binarySize).sum)]
    by_cases hless : kept.length < content.length
    · rw [if_pos hless, if_pos (Nat.sub_pos_of_lt hless)]
    · rw [if_neg hless, if_neg (by omega)]

/-! ### A text at the floor -/

theorem serializedTextBytes_replicate {c : UInt16} (hc : isHigh c = false) (n : ℕ) :
    serializedTextBytes (List.replicate n c) = n * codePointCost c.toNat := by
  induction n with
  | zero => rw [Nat.zero_mul]; rfl
  | succ n ih =>
    have hsplit : ¬ Splits [c] (List.replicate n c) := not_splits_of_getLast rfl hc
    rw [List.replicate_succ, ← List.singleton_append, serializedTextBytes_append hsplit, ih,
      Nat.succ_mul, Nat.add_comm]
    rfl

/-- Two texts, the first of which leaves the second its floor. -/
def twoTexts : List (ContentItem Unit) :=
  [.text (List.replicate 102144 97) (), .text (List.replicate 100 0x20AC) ()]

theorem responses_bounded_twoTexts :
    (∀ text maxBytes hint, Truncates text maxBytes hint) ∧
    ∃ kept note, (boundToolResult () ⟨some twoTexts, ()⟩ none).content.getD [] = kept ++ note ∧
      Keeps (itemFloor twoTexts) none twoTexts kept ∧
      (kept.map textSize).sum ≤ MCP_TEXT_BUDGET_BYTES ∧
      (kept.map binarySize).sum ≤ MCP_IMAGE_BUDGET_BYTES ∧
      note = if kept.length < twoTexts.length then
        [.text (imageNote none (twoTexts.length - kept.length)
          ((twoTexts.map binarySize).sum - (kept.map binarySize).sum)) ()]
        else [] := by
  refine responses_bounded () ⟨some twoTexts, ()⟩ none fun item hitem text rest htext => ?_
  subst htext
  simp only [twoTexts, Option.getD_some, List.mem_cons, ContentItem.text.injEq, List.not_mem_nil,
    or_false] at hitem
  rcases hitem with ⟨rfl, -⟩ | ⟨rfl, -⟩
  · rw [List.length_replicate]
    omega
  · rw [List.length_replicate]
    omega

/-- Where the first text leaves the second its floor, the second is cut to a front. -/
theorem boundToolResult_pair {a b : List UInt16} (ha : serializedTextBytes a = 102144)
    (hb : serializedTextBytes b = 300) :
    (boundToolResult () ⟨some [.text a (), .text b ()], ()⟩ none).content =
      some [.text a (), .text (headWithin b 256) ()] := by
  have hover : ¬ ((([.text a (), .text b ()] : List (ContentItem Unit)).map textSize).sum ≤
        MCP_TEXT_BUDGET_BYTES ∧
      (([.text a (), .text b ()] : List (ContentItem Unit)).map binarySize).sum ≤
        MCP_IMAGE_BUDGET_BYTES) := by
    intro h
    rw [List.map_cons, List.map_cons, List.sum_cons, List.sum_cons, textSize, textSize, ha, hb] at h
    exact absurd h.1 (by decide)
  have hwhole : boundText 102144 none a = a := if_pos ha.le
  have hfront : boundText 256 none b = headWithin b 256 := by
    rw [boundText, hb, if_neg (by decide), if_neg (by decide)]
  have hallowed : allowance 256 (⟨102400, 2, 5242880, 0, 0, []⟩ : Bounding Unit) = 102144 := rfl
  have hleft : allowance 256 (⟨256, 1, 5242880, 0, 0, [.text a ()]⟩ : Bounding Unit) = 256 := rfl
  have hfirst : boundItem 256 none (⟨102400, 2, 5242880, 0, 0, []⟩ : Bounding Unit) (.text a ()) =
      ⟨256, 1, 5242880, 0, 0, [.text a ()]⟩ := by
    rw [boundItem_text, hallowed, hwhole, ha]
    rfl
  have hsecond : boundItem 256 none (⟨256, 1, 5242880, 0, 0, [.text a ()]⟩ : Bounding Unit)
      (.text b ()) = ⟨256 - serializedTextBytes (headWithin b 256), 0, 5242880, 0, 0,
        [.text a (), .text (headWithin b 256) ()]⟩ := by
    rw [boundItem_text, hleft, hfront]
    rfl
  have hcount : ([.text a (), .text b ()] : List (ContentItem Unit)).countP isText = 2 := rfl
  have hfloor : itemFloor ([.text a (), .text b ()] : List (ContentItem Unit)) = 256 := by
    rw [itemFloor, hcount]
    decide
  have hrun : ([.text a (), .text b ()] : List (ContentItem Unit)).foldl
      (boundItem (itemFloor [.text a (), .text b ()]) none) ⟨102400, 2, 5242880, 0, 0, []⟩ =
      ⟨256 - serializedTextBytes (headWithin b 256), 0, 5242880, 0, 0,
        [.text a (), .text (headWithin b 256) ()]⟩ := by
    rw [hfloor, List.foldl_cons, List.foldl_cons, List.foldl_nil, hfirst, hsecond]
  exact @boundToolResult_of_over Unit () ⟨some [.text a (), .text b ()], ()⟩ none
    [.text a (), .text b ()] _ rfl hover hrun

/-- The second of them is cut to 255 bytes. -/
theorem not_floor : itemFloor twoTexts = 256 ∧
    (boundToolResult () ⟨some twoTexts, ()⟩ none).content =
      some [.text (List.replicate 102144 97) (), .text (List.replicate 85 0x20AC) ()] ∧
    serializedTextBytes (List.replicate 85 0x20AC) = 255 := by
  have hcut : headWithin (List.replicate 100 0x20AC) 256 = List.replicate 85 0x20AC := by
    decide +kernel
  refine ⟨by decide, ?_, serializedTextBytes_replicate rfl _⟩
  rw [← hcut]
  exact boundToolResult_pair (serializedTextBytes_replicate rfl _)
    (serializedTextBytes_replicate rfl _)

end Tapsmith.Mcp.ResponseLimits
