import Mathlib.Logic.Function.Basic
import Tapsmith.Lib.Text
import Tapsmith.Trace.Collector

namespace Tapsmith.Trace

open Lib.Text

/-!
# The trace archive

What `trace-packager.ts` writes of a collector into the zip of a test, and what it appends to that
zip later, when the afterAll hooks have run.

* `archivePath`, `shiftArchivePath` — the names of captures, and the same names further on;
* `packageTrace`, `appendEventsToTrace` — the zip and its amendment;
* `appendAfterAll` — the amendment with the offset that `runner.ts` computes.
-/

/-! ### Names -/

/-- `String(n).padStart(3, '0')`. -/
def padIndex (n : ℕ) : List Char :=
  List.replicate (3 - (Nat.toDigits 10 n).length) '0' ++ Nat.toDigits 10 n

def Position.text : Position → List Char
  | .before => "before".toList
  | .after => "after".toList

def CaptureKind.folder : CaptureKind → List Char
  | .screenshot => "screenshots/".toList
  | .hierarchy => "hierarchy/".toList

def CaptureKind.extension : CaptureKind → List Char
  | .screenshot => ".png".toList
  | .hierarchy => ".xml".toList

/-- `screenshotArchivePath` and `hierarchyArchivePath`. -/
def archivePath (kind : CaptureKind) (position : Position) (actionIndex : ℕ) : List Char :=
  kind.folder ++ ("action-".toList ++ (padIndex actionIndex ++ ('-' :: (position.text ++
    kind.extension))))

def isDigit (c : Char) : Bool := '0' ≤ c && c ≤ '9'

/-- `/action-(\d+)-(before|after)/` at the start of a text: the digits, and what follows them. -/
def matchAction (s : List Char) : Option (List Char × List Char) :=
  let rest := s.drop 7
  let digits := rest.takeWhile isDigit
  let tail := rest.dropWhile isDigit
  if "action-".toList.isPrefixOf s = true ∧ digits ≠ [] ∧
      ("-before".toList.isPrefixOf tail = true ∨ "-after".toList.isPrefixOf tail = true) then
    some (digits, tail)
  else none

/-- The first match is shifted; `parseInt` reads its digits. -/
def shiftArchivePath (offset : ℕ) : List Char → List Char
  | [] => []
  | c :: s =>
    match matchAction (c :: s) with
    | some (digits, tail) =>
      "action-".toList ++ (padIndex ((digitsValue 10 0 digits).getD 0 + offset) ++ tail)
    | none => c :: shiftArchivePath offset s

/-! ### Archives -/

/-- The parts of a zip that a collector fills: `trace.json`, the captures by their names, and the
    action count of `metadata.json`. -/
structure Archive (A : Type) where
  events : List (TraceEvent A)
  members : List Char → Option (Capture A)
  actionCount : ℕ

variable {A : Type}

def Capture.path (capture : Capture A) : List Char :=
  archivePath capture.kind capture.position capture.actionIndex

/-- Captures are written one after the other, under the names that `name` gives them. -/
def writeMembers (name : Capture A → List Char) (members : List Char → Option (Capture A)) :
    List (Capture A) → List Char → Option (Capture A)
  | [] => members
  | capture :: rest =>
    writeMembers name (Function.update members (name capture) (some capture)) rest

/-- Screenshots are read back from disk, where one may have vanished. -/
def TraceCollector.readable (c : TraceCollector A) (onDisk : Capture A → Bool) :
    List (Capture A) :=
  c.captures.filter fun capture => capture.kind = .hierarchy || onDisk capture

def packageTrace (c : TraceCollector A) (onDisk : Capture A → Bool) : Archive A where
  events := c.events
  members := writeMembers Capture.path (fun _ => none) (c.readable onDisk)
  actionCount := c.actionIndex

def TraceEvent.shift (offset : ℕ) (e : TraceEvent A) : TraceEvent A :=
  { e with actionIndex := e.actionIndex + offset }

def appendEventsToTrace (archive : Archive A) (c : TraceCollector A) (onDisk : Capture A → Bool)
    (actionIndexOffset : ℕ) : Archive A :=
  if c.events = [] then archive
  else
    { events := archive.events ++ c.events.map (TraceEvent.shift actionIndexOffset)
      members := writeMembers (fun capture => shiftArchivePath actionIndexOffset capture.path)
        archive.members (c.readable onDisk)
      actionCount :=
        if 0 < c.actionIndex then max archive.actionCount (actionIndexOffset + c.actionIndex)
        else archive.actionCount }

/-- Past the actions of the archive and the terminal screenshots, one for each device. -/
def afterAllOffset (devices : ℕ) (archive : Archive A) : ℕ := archive.actionCount + max 1 devices

def appendAfterAll (devices : ℕ) (archive : Archive A) (c : TraceCollector A)
    (onDisk : Capture A → Bool) : Archive A :=
  appendEventsToTrace archive c onDisk (afterAllOffset devices archive)

/-! ### Names of captures -/

theorem isDigit_of_mem_padIndex {n : ℕ} {c : Char} (hc : c ∈ padIndex n) : isDigit c = true := by
  rcases List.mem_append.mp hc with hc | hc
  · rw [List.eq_of_mem_replicate hc]
    rfl
  · obtain ⟨hlo, hhi⟩ := isDigit_of_mem_toDigits hc
    have h0 : '0' ≤ c := UInt32.le_iff_toNat_le.mpr hlo
    have h9 : c ≤ '9' := UInt32.le_iff_toNat_le.mpr hhi
    simp [isDigit, h0, h9]

theorem padIndex_ne_nil (n : ℕ) : padIndex n ≠ [] := by
  intro h
  exact Nat.toDigits_ne_nil (List.append_eq_nil_iff.mp h).2

/-- Leading zeros do not matter. -/
theorem digitsValue_padIndex (n : ℕ) : digitsValue 10 0 (padIndex n) = some n := by
  have hzeros : ∀ k, digitsValue 10 0 (List.replicate k '0') = some 0 := by
    intro k
    induction k with
    | zero => rfl
    | succ k ih => exact ih
  rw [padIndex, digitsValue_append, hzeros, Option.bind_some, digitsValue_toDigits]

/-- **Captures have names of their own.** -/
theorem archivePath_inj {kind kind' : CaptureKind} {position position' : Position} {i j : ℕ}
    (h : archivePath kind position i = archivePath kind' position' j) : i = j := by
  have hkind : kind = kind' := by
    cases kind <;> cases kind' <;> first | rfl | exact absurd (List.head_eq_of_cons_eq h) (by decide)
  subst hkind
  have hpad := List.append_cancel_left (List.append_cancel_left h)
  have hdash : ∀ n, '-' ∉ padIndex n :=
    fun n hmem => absurd (isDigit_of_mem_padIndex hmem) (by decide)
  have hsplit := congrArg (splitOnce '-') hpad
  rw [splitOnce_append (hdash i), splitOnce_append (hdash j), Option.some.injEq, Prod.mk.injEq]
    at hsplit
  have hvalue := congrArg (digitsValue 10 0) hsplit.1
  rw [digitsValue_padIndex, digitsValue_padIndex] at hvalue
  exact Option.some.inj hvalue

/-- The name of a capture is found by the pattern, behind its folder. -/
theorem matchAction_name (position : Position) (extension : List Char) (i : ℕ) :
    matchAction ("action-".toList ++ (padIndex i ++ ('-' :: (position.text ++ extension)))) =
      some (padIndex i, '-' :: (position.text ++ extension)) := by
  have hdigits : ∀ c ∈ padIndex i, isDigit c = true := fun c => isDigit_of_mem_padIndex
  have hdash : ¬ isDigit '-' = true := nofun
  have hdrop : ("action-".toList ++ (padIndex i ++ ('-' :: (position.text ++ extension)))).drop 7 =
      padIndex i ++ ('-' :: (position.text ++ extension)) := rfl
  have htake : (padIndex i ++ ('-' :: (position.text ++ extension))).takeWhile isDigit =
      padIndex i := by
    rw [List.takeWhile_append_of_pos hdigits, List.takeWhile_cons_of_neg hdash, List.append_nil]
  have htail : (padIndex i ++ ('-' :: (position.text ++ extension))).dropWhile isDigit =
      '-' :: (position.text ++ extension) := by
    rw [List.dropWhile_append_of_pos hdigits, List.dropWhile_cons_of_neg hdash]
  unfold matchAction
  dsimp only
  rw [hdrop, htake, htail]
  refine if_pos ⟨rfl, padIndex_ne_nil i, ?_⟩
  cases position with
  | before => exact .inl rfl
  | after => exact .inr rfl

/-- **Shifted names** are the names of the shifted indices. -/
theorem shiftArchivePath_archivePath (kind : CaptureKind) (position : Position) (i offset : ℕ) :
    shiftArchivePath offset (archivePath kind position i) =
      archivePath kind position (i + offset) := by
  -- No match begins inside the folder.
  have hfolder : ∀ name, shiftArchivePath offset (kind.folder ++ name) =
      kind.folder ++ shiftArchivePath offset name := by
    intro name
    cases kind <;> rfl
  have hname : ∀ s digits tail, matchAction s = some (digits, tail) →
      shiftArchivePath offset s =
        "action-".toList ++ (padIndex ((digitsValue 10 0 digits).getD 0 + offset) ++ tail) := by
    intro s digits tail hmatch
    cases s with
    | nil => exact absurd hmatch nofun
    | cons c s =>
      rw [shiftArchivePath, hmatch]
  unfold archivePath
  rw [hfolder, hname _ _ _ (matchAction_name position kind.extension i), digitsValue_padIndex,
    Option.getD_some]

/-! ### Members -/

variable {name : Capture A → List Char} {members : List Char → Option (Capture A)}
  {captures : List (Capture A)} {path : List Char}

/-- Other members stay. -/
theorem writeMembers_of_fresh (h : ∀ capture ∈ captures, name capture ≠ path) :
    writeMembers name members captures path = members path := by
  induction captures generalizing members with
  | nil => rfl
  | cons capture rest ih =>
    rw [writeMembers, ih fun c hc => h c (List.mem_cons_of_mem _ hc)]
    exact Function.update_of_ne (h capture (List.mem_cons_self ..)).symm ..

/-- Every member was there or is one of the captures. -/
theorem mem_of_writeMembers {capture : Capture A}
    (h : writeMembers name members captures path = some capture) :
    members path = some capture ∨ capture ∈ captures ∧ name capture = path := by
  induction captures generalizing members with
  | nil => exact .inl h
  | cons first rest ih =>
    rcases ih h with hmem | ⟨hmem, hname⟩
    · by_cases hpath : path = name first
      · subst hpath
        rw [Function.update_self, Option.some.injEq] at hmem
        subst hmem
        exact .inr ⟨List.mem_cons_self .., rfl⟩
      · rw [Function.update_of_ne hpath] at hmem
        exact .inl hmem
    · exact .inr ⟨List.mem_cons_of_mem _ hmem, hname⟩

end Tapsmith.Trace
