import Mathlib.Data.List.Sort
import Tapsmith.Report.Blob

namespace Tapsmith.Report

open Lib Lib.Entries

/-!
# Merging blob reports

`mergeBlobs` of `reporters/blob.ts`: from a directory that holds the blobs of some shards and the
files copied beside them, the results of the whole run, and the directory with the screenshots
written back.

* `checkShards` — the blobs are one split, each shard at most once;
* `restoreTest`, `restoreBlob` — the results of one blob, its keys checked;
* `mergeBlobs` — the merge; `collation` stands for the order of `localeCompare`.
-/

/-- Why a directory is refused. -/
inductive BlobMergeError
  | noReports
  | invalid (file : String)
  | newerVersion (file : String) (version : ℕ)
  | mixed (sharded unsharded : String)
  | differentSplits (file other : String)
  | duplicate (shard total : ℕ) (files : List String)
  | attachmentName (file key : String)
deriving DecidableEq

structure ParsedBlob where
  file : String
  blob : BlobData

def ParsedBlob.current (b : ParsedBlob) : ℕ := (b.blob.shard.map ShardInfo.current).getD 0

def ParsedBlob.total (b : ParsedBlob) : ℕ := (b.blob.shard.map ShardInfo.total).getD 0

def isJsonl (name : String) : Bool := ".jsonl".toList.isSuffixOf name.toList

/-- `path.join` of a resolved directory and a plain name. -/
def join (dir name : String) : String :=
  if dir.toList.getLast? = some '/' then dir ++ name else dir ++ ("/" ++ name)

/-! ### Reading -/

def parseBlob (dir : List (String × Content)) (file : String) :
    Except BlobMergeError ParsedBlob :=
  match get file dir with
  | none => .error (.invalid file)
  | some (.bytes _) => .error (.invalid file)
  | some (.blob data) =>
    if data.version < 1 then .error (.invalid file)
    else if blobVersion < data.version then .error (.newerVersion file data.version)
    else if data.shard.all (fun s => 1 ≤ s.current ∧ s.current ≤ s.total) then .ok ⟨file, data⟩
    else .error (.invalid file)

/-- The total of the split, and the shards that are missing from it. -/
def checkShards (blobs : List ParsedBlob) : Except BlobMergeError (Option ℕ × List ℕ) :=
  match blobs.filter (·.blob.shard.isSome) with
  | [] => .ok (none, [])
  | first :: rest =>
    match blobs.find? (·.blob.shard.isNone) with
    | some unsharded => .error (.mixed first.file unsharded.file)
    | none =>
      match (first :: rest).find? (·.total ≠ first.total) with
      | some other => .error (.differentSplits first.file other.file)
      | none =>
        let files := fun shard => ((first :: rest).filter (·.current = shard)).map ParsedBlob.file
        match (List.range' 1 first.total).find? (fun shard => 1 < (files shard).length) with
        | some shard => .error (.duplicate shard first.total (files shard))
        | none => .ok (some first.total, (List.range' 1 first.total).filter (files · = []))

/-! ### Restoring -/

/-- A bare file name in the blob directory, and not that of a blob. -/
def plainKey (key : String) : Bool :=
  key ≠ "" && key ≠ "." && key ≠ ".." && basename key = key && !key.toList.contains '/' &&
    !key.toList.contains '\\' && !isJsonl key

def SerializedTest.keys (t : SerializedTest) : List String :=
  t.screenshotKey.toList ++ t.traceKey.toList ++ t.videoKey.toList

/-- The keys that `checkAttachmentKeys` looks at. -/
def BlobData.keys (blob : BlobData) : List String :=
  blob.screenshots.map Prod.fst ++ blob.tests.flatMap SerializedTest.keys ++
    (Group.leavesAll blob.suites).flatMap SerializedTest.keys

def restorePath (blobDir : String) (key : Option String) : Option String :=
  (key.filter (· ≠ "")).map (join blobDir)

def restoreTest (blobDir : String) (t : SerializedTest) : TestResult where
  name := t.name
  fullName := t.fullName
  status := t.status
  durationMs := t.durationMs
  error := t.error
  firstAttemptError := t.firstAttemptError
  failedAttemptArtifacts := t.failedAttemptArtifacts
  warnings := t.warnings
  fileLevelFailure := t.fileLevelFailure
  screenshotPath := restorePath blobDir t.screenshotKey
  tracePath := restorePath blobDir t.traceKey
  videoPath := restorePath blobDir t.videoKey
  retry := t.retry

def deserializeSuite (blobDir : String) : SerializedSuite → SuiteResult :=
  Group.map (restoreTest blobDir)

/-- The first pass over a blob. -/
def restoreBlob (blobDir : String) (b : ParsedBlob) :
    Except BlobMergeError (List TestResult × List SuiteResult) :=
  match b.blob.keys.find? (!plainKey ·) with
  | some key => .error (.attachmentName b.file key)
  | none =>
    .ok (b.blob.tests.map (restoreTest blobDir), b.blob.suites.map (deserializeSuite blobDir))

/-- The second pass over a blob: what is there is not overwritten. -/
def restoreScreenshots (b : ParsedBlob) (dir : List (String × Content)) :
    List (String × Content) :=
  addAll (b.blob.screenshots.map fun entry => (entry.1, .bytes entry.2)) dir

/-! ### Merging -/

variable {K : Type} [LinearOrder K]

/-- The order of the merge: by shard, then by file name. -/
def before (collation : String → K) (a b : ParsedBlob) : Prop :=
  a.current < b.current ∨ (a.current = b.current ∧ collation a.file ≤ collation b.file)

instance (collation : String → K) : DecidableRel (before collation) :=
  fun _ _ => inferInstanceAs (Decidable (_ ∨ _))

def mergedResult (missing : List ℕ) (blobs : List ParsedBlob)
    (restored : List (List TestResult × List SuiteResult)) : FullResult :=
  let tests := restored.flatMap Prod.fst
  { status := if tests.any (·.status = .failed) ∨ missing ≠ [] then .failed else .passed
    duration := blobs.foldl (fun total b => max total b.blob.duration) 0
    tests := tests
    suites := restored.flatMap Prod.snd }

def mergeBlobs (collation : String → K) (blobDir : String) (dir : List (String × Content)) :
    Except BlobMergeError (FullResult × List (String × Content)) :=
  let files := ((dir.map Prod.fst).filter isJsonl).insertionSort (· ≤ ·)
  if files = [] then .error .noReports
  else do
    let parsed ← files.mapM (parseBlob dir)
    let shards ← checkShards parsed
    let blobs := parsed.insertionSort (before collation)
    let restored ← blobs.mapM (restoreBlob blobDir)
    pure (mergedResult shards.2 blobs restored,
      blobs.foldl (fun dir b => restoreScreenshots b dir) dir)

end Tapsmith.Report
