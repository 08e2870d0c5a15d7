import Tapsmith.Lib.Entries
import Tapsmith.Lib.Group

namespace Tapsmith.Report

open Lib Lib.Entries

/-!
# Blob reports

The blob reporter of `reporters/blob.ts`: what it writes of a shard's results into its output
directory, from which `merge-reports` is to get them back.

* `TestResult`, `SuiteResult`, `FullResult` — the results as reporters receive them;
* `BlobData` — the blob, with the keys of the attachments in place of their paths;
* `serializeTest`, `onRunEnd` — the writer.  It starts from an empty directory.
-/

abbrev Bytes := List UInt8

/-- The files of a machine, by path. -/
abbrev Files := String → Option Bytes

/-- `path.basename`. -/
def basename (path : String) : String :=
  let trimmed := path.toList.reverse.dropWhile (· = '/')
  String.ofList (trimmed.takeWhile (· ≠ '/')).reverse

/-! ### Results -/

inductive TestStatus
  | passed
  | failed
  | skipped
deriving DecidableEq

/-- What reporters show of an `Error`. -/
structure ErrorInfo where
  message : String
  stack : Option String
deriving DecidableEq

/-- Which artifacts come from the first failed attempt. -/
structure FailedAttemptArtifacts where
  screenshot : Option Bool
  trace : Option Bool
  video : Option Bool
deriving DecidableEq

structure TestResult where
  name : String
  fullName : String
  status : TestStatus
  durationMs : ℕ
  error : Option ErrorInfo := none
  screenshotPath : Option String := none
  tracePath : Option String := none
  videoPath : Option String := none
  workerIndex : Option ℕ := none
  project : Option String := none
  retry : Option ℕ := none
  firstAttemptError : Option ErrorInfo := none
  failedAttemptArtifacts : Option FailedAttemptArtifacts := none
  filePath : Option String := none
  warnings : Option (List String) := none
  fileLevelFailure : Bool := false
deriving DecidableEq

/-- The name and the duration of a describe block. -/
structure SuiteInfo where
  name : String
  durationMs : ℕ
deriving DecidableEq

abbrev SuiteResult := Group SuiteInfo TestResult

inductive RunStatus
  | passed
  | failed
deriving DecidableEq

structure FullResult where
  status : RunStatus
  duration : ℕ
  tests : List TestResult
  suites : List SuiteResult

/-- All results that are in it, in the order in which the blob reporter comes to them. -/
def FullResult.results (result : FullResult) : List TestResult :=
  Group.leavesAll result.suites ++ result.tests

inductive AttachmentKind
  | screenshot
  | trace
  | video

def TestResult.path (t : TestResult) : AttachmentKind → Option String
  | .screenshot => t.screenshotPath
  | .trace => t.tracePath
  | .video => t.videoPath

/-! ### The blob -/

structure SerializedTest where
  name : String
  fullName : String
  status : TestStatus
  durationMs : ℕ
  error : Option ErrorInfo
  firstAttemptError : Option ErrorInfo
  failedAttemptArtifacts : Option FailedAttemptArtifacts
  warnings : Option (List String)
  fileLevelFailure : Bool
  screenshotKey : Option String
  traceKey : Option String
  videoKey : Option String
  retry : Option ℕ

abbrev SerializedSuite := Group SuiteInfo SerializedTest

structure ShardInfo where
  current : ℕ
  total : ℕ
deriving DecidableEq

/-- The format this version writes, and the newest it can merge. -/
def blobVersion : ℕ := 1

/-- Screenshots are in the blob itself, by their keys. -/
structure BlobData where
  version : ℕ
  shard : Option ShardInfo
  duration : ℕ
  suites : List SerializedSuite
  tests : List SerializedTest
  screenshots : List (String × Bytes)
  attachments : List String

/-- A file in a blob directory: a blob report, or anything else. -/
inductive Content
  | bytes (b : Bytes)
  | blob (data : BlobData)

/-! ### The writer -/

/-- What `onRunEnd` fills while it serializes: the files that it copies into the output directory,
    the screenshots, and the names of the copies. -/
structure Output where
  copies : List (String × Bytes) := []
  screenshots : List (String × Bytes) := []
  attachments : List String := []

/-- The path and the file that it leads to; an empty path is none. -/
def existing (files : Files) (path : Option String) : Option (String × Bytes) :=
  (path.filter (· ≠ "")).bind fun p => (files p).map fun bytes => (p, bytes)

/-- A screenshot is read where its key has none yet, or an empty one. -/
def encodeScreenshot (files : Files) (path : Option String) (out : Output) :
    Option String × Output :=
  match existing files path with
  | none => (none, out)
  | some (p, bytes) =>
    let key := basename p
    if ((get key out.screenshots).getD []).isEmpty then
      (some key, { out with screenshots := put key bytes out.screenshots })
    else (some key, out)

/-- A trace or a video is copied where its key is free. -/
def copyAttachment (files : Files) (path : Option String) (out : Output) :
    Option String × Output :=
  match existing files path with
  | none => (none, out)
  | some (p, bytes) =>
    let key := basename p
    (some key, { out with
      copies := add key bytes out.copies
      attachments := out.attachments ++ [key] })

def serializeTest (files : Files) (t : TestResult) (out : Output) : SerializedTest × Output :=
  let screenshot := encodeScreenshot files t.screenshotPath out
  let trace := copyAttachment files t.tracePath screenshot.2
  let video := copyAttachment files t.videoPath trace.2
  ({ name := t.name
     fullName := t.fullName
     status := t.status
     durationMs := t.durationMs
     error := t.error
     firstAttemptError := t.firstAttemptError
     failedAttemptArtifacts := t.failedAttemptArtifacts
     warnings := t.warnings
     fileLevelFailure := t.fileLevelFailure
     screenshotKey := screenshot.1
     traceKey := trace.1
     videoKey := video.1
     retry := t.retry }, video.2)

/-- The results, suites first, and all that was filled on the way. -/
def serializeRun (files : Files) (result : FullResult) :
    (List SerializedSuite × List SerializedTest) × Output :=
  let suites := Group.mapStateAll (serializeTest files) result.suites {}
  let tests := Group.stateList (serializeTest files) result.tests suites.2
  ((suites.1, tests.1), tests.2)

def blobOf (files : Files) (shard : Option ShardInfo) (result : FullResult) : BlobData :=
  let run := serializeRun files result
  { version := blobVersion
    shard := shard
    duration := result.duration
    suites := run.1.1
    tests := run.1.2
    screenshots := run.2.screenshots
    attachments := run.2.attachments }

/-- The output directory after `onRunEnd`, which writes the blob last, as `filename`. -/
def onRunEnd (files : Files) (shard : Option ShardInfo) (filename : String)
    (result : FullResult) : List (String × Content) :=
  put filename (.blob (blobOf files shard result))
    ((serializeRun files result).2.copies.map fun copy => (copy.1, .bytes copy.2))

/-! ### Keys -/

variable {files : Files} {path : Option String} {out : Output} {t : TestResult}

/-- What a path leads to, under its key. -/
def found (files : Files) (path : Option String) : List (String × Bytes) :=
  (existing files path).toList.map fun file => (basename file.1, file.2)

def TestResult.copied (files : Files) (t : TestResult) : List (String × Bytes) :=
  found files t.tracePath ++ found files t.videoPath

/-- The test has an attachment with this key and these bytes. -/
def TestResult.Owns (files : Files) (t : TestResult) (key : String) (bytes : Bytes) : Prop :=
  ∃ kind path, existing files (t.path kind) = some (path, bytes) ∧ basename path = key

theorem mem_found {key : String} {bytes : Bytes} : (key, bytes) ∈ found files path ↔
    ∃ p, existing files path = some (p, bytes) ∧ basename p = key := by
  simp only [found, List.mem_map, Option.mem_toList, Prod.mk.injEq]
  constructor
  · intro ⟨file, hfile, hkey, hbytes⟩
    exact ⟨file.1, by rw [hfile, ← hbytes], hkey⟩
  · intro ⟨p, hfile, hkey⟩
    exact ⟨(p, bytes), hfile, hkey, rfl⟩

theorem encodeScreenshot_copies : (encodeScreenshot files path out).2.copies = out.copies := by
  unfold encodeScreenshot
  split
  · rfl
  · dsimp only
    split
    · rfl
    · rfl

theorem copyAttachment_copies : (copyAttachment files path out).2.copies =
    addAll (found files path) out.copies := by
  unfold copyAttachment found
  split
  case h_1 hnone => rw [hnone]; rfl
  case h_2 p bytes hsome => rw [hsome]; rfl

theorem serializeTest_copies : Extends (t.copied files) out.copies
    (serializeTest files t out).2.copies := by
  have hcopies : (serializeTest files t out).2.copies = addAll (t.copied files) out.copies := by
    simp [serializeTest, TestResult.copied, copyAttachment_copies, encodeScreenshot_copies,
      addAll_append]
  rw [hcopies]
  exact extends_addAll

variable {result : FullResult}

theorem serializeRun_snd : (serializeRun files result).2 =
    result.results.foldl (fun out t => (serializeTest files t out).2) {} := by
  simp [serializeRun, FullResult.results, Group.mapStateAll_snd, Group.stateList_snd,
    List.foldl_append]

theorem serializeRun_copies : Extends (result.results.flatMap (TestResult.copied files)) []
    (serializeRun files result).2.copies := by
  rw [serializeRun_snd]
  have h : ∀ out t, Extends (TestResult.copied files t) (Output.copies out)
      (Output.copies (serializeTest files t out).2) := fun _ _ => serializeTest_copies
  exact Extends.foldl h result.results {}

end Tapsmith.Report
