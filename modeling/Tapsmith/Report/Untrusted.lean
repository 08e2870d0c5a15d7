import Tapsmith.Lib.Fallible
import Tapsmith.Lib.Json
import Tapsmith.Report.Merge

namespace Tapsmith.Report.Untrusted

open Lib Lib.Fallible

/-!
# Merging what anyone may have written

`mergeBlobs` of `reporters/blob.ts` once more, over directories that hold anything: files that are
no JSON, JSON that is no blob, and blobs whose tests, suites and attachment names were made up.
(`Report.Merge` takes the blobs as the reporter writes them.)

* `Item`, `Directory` — what is in the directory; `Node` — what the merge uses of Node and of the
  file system;
* `parseBlob`, `checkShards`, `checkAttachmentKeys` — the checks, over the parsed JSON;
* `restoreTest`, `deserializeSuite` — the results; `none` is a `TypeError` on the way;
* `mergeBlobs` — the merge, with every path that it reads or writes.
-/

/-! ### The directory -/

/-- A file, or something that cannot be read as one. -/
inductive Item
  | file (bytes : Bytes)
  | other
deriving DecidableEq

def Item.bytes : Item → Option Bytes
  | .file bytes => some bytes
  | .other => none

/-- A name that stands for an entry of a directory and for nothing else. -/
def BareName (name : String) : Prop := name ≠ "" ∧ name ≠ "." ∧ name ≠ ".." ∧ '/' ∉ name.toList

instance (name : String) : Decidable (BareName name) := inferInstanceAs (Decidable (_ ∧ _))

/-- The entries of the blob directory, as `readdirSync` names them. -/
structure Directory where
  entries : List (String × Item)
  bare : ∀ entry ∈ entries, BareName entry.1

/-- What is used of Node: `text` decodes UTF-8 and trims it, `string` is `String(value)`, `none`
    where that throws, and `creatable` are the names that the file system takes for a new file. -/
structure Node (K : Type) where
  text : Bytes → String
  parse : String → Option Json
  string : Json → Option String
  max : Json → Json → Json
  base64 : String → Bytes
  collation : String → K
  creatable : String → Bool

/-! ### Blobs -/

/-- What is used of a blob once `parseBlob` has taken it. -/
structure BlobData where
  shard : Option ShardInfo
  duration : Json
  tests : List Json
  suites : List Json
  screenshots : Option Json

structure ParsedBlob where
  file : String
  blob : BlobData

def ParsedBlob.current (b : ParsedBlob) : ℕ := (b.blob.shard.map ShardInfo.current).getD 0

def ParsedBlob.total (b : ParsedBlob) : ℕ := (b.blob.shard.map ShardInfo.total).getD 0

inductive InvalidReason
  | unreadable
  | empty
  | notJson
  | notObject
  | version
  | tests
  | suites
  | duration
  | shard
  | entry

/-- Why a merge is refused. -/
inductive BlobMergeError
  | noReports
  | invalid (file : String) (reason : InvalidReason)
  | newerVersion (file : String) (version : ℤ)
  | mixed (sharded : String) (shard : Option ShardInfo) (unsharded : String)
  | differentSplits (file : String) (shard : Option ShardInfo) (other : String)
      (otherShard : Option ShardInfo)
  | duplicate (shard total : ℕ) (files : List String)
  | attachmentName (file : String) (key : Json)
  | cannotRestore (key file : String)

def integer : Option Json → Option ℤ
  | some (.num n) => some n
  | _ => none

def number : Option Json → Option Json
  | some (.num n) => some (.num n)
  | some (.real literal) => some (.real literal)
  | _ => none

/-- The shard of a blob that says one; nothing where it is malformed. -/
def shardOf (shard : Json) : Option ShardInfo := do
  let current ← integer (shard.field "current")
  let total ← integer (shard.field "total")
  guard (1 ≤ current ∧ current ≤ total)
  pure ⟨current.toNat, total.toNat⟩

/-- `shard` may be missing or null. -/
def parseShard : Option Json → Option (Option ShardInfo)
  | none => some none
  | some .null => some none
  | some shard => (shardOf shard).map some

variable {K : Type}

def parseBlob (node : Node K) (entries : List (String × Item)) (file : String) :
    Except BlobMergeError BlobData := do
  let bytes ← orThrow (.invalid file .unreadable)
    ((Entries.get file entries).bind Item.bytes)
  ensure (.invalid file .empty) (node.text bytes ≠ "")
  let parsed ← orThrow (.invalid file .notJson) (node.parse (node.text bytes))
  ensure (.invalid file .notObject) parsed.isObject
  let version ← orThrow (.invalid file .version) (integer (parsed.field "version"))
  ensure (.invalid file .version) (1 ≤ version)
  ensure (.newerVersion file version) (version ≤ blobVersion)
  let tests ← orThrow (.invalid file .tests) (Json.array (parsed.field "tests"))
  let suites ← orThrow (.invalid file .suites) (Json.array (parsed.field "suites"))
  let duration ← orThrow (.invalid file .duration) (number (parsed.field "duration"))
  let shard ← orThrow (.invalid file .shard) (parseShard (parsed.field "shard"))
  pure ⟨shard, duration, tests, suites, parsed.field "screenshots"⟩

/-- The blobs of the files, one after the other up to the first that is refused, and the paths that
    were read. -/
def parseBlobs (node : Node K) (blobDir : String) (entries : List (String × Item)) :
    List String → List String × Except BlobMergeError (List ParsedBlob)
  | [] => ([], .ok [])
  | file :: files =>
    match parseBlob node entries file with
    | .error e => ([join blobDir file], .error e)
    | .ok blob =>
      let rest := parseBlobs node blobDir entries files
      (join blobDir file :: rest.1, rest.2.map (⟨file, blob⟩ :: ·))

/-- The total of the split, and the shards that are missing from it. -/
def checkShards (blobs : List ParsedBlob) : Except BlobMergeError (Option ℕ × List ℕ) :=
  match blobs.filter (·.blob.shard.isSome) with
  | [] => .ok (none, [])
  | first :: rest =>
    match blobs.find? (·.blob.shard.isNone) with
    | some unsharded => .error (.mixed first.file first.blob.shard unsharded.file)
    | none =>
      match (first :: rest).find? (·.total ≠ first.total) with
      | some other =>
        .error (.differentSplits first.file first.blob.shard other.file other.blob.shard)
      | none =>
        let files := fun shard => ((first :: rest).filter (·.current = shard)).map ParsedBlob.file
        let byShard := ((first :: rest).map ParsedBlob.current).insertionSort (· ≤ ·)
        match byShard.find? (fun shard => 1 < (files shard).length) with
        | some shard => .error (.duplicate shard first.total (files shard))
        | none => .ok (some first.total, (List.range' 1 first.total).filter (files · = []))

/-! ### Attachment names -/

/-- The fields of a test that name its attachments. -/
def attachments (t : Json) : List (Option Json) :=
  [t.field "screenshotKey", t.field "traceKey", t.field "videoKey"]

/-- The names in a test.  There are none to look at in `null`. -/
def visit (t : Json) : Option (List (Option Json)) :=
  match t with
  | .null => none
  | t => some (attachments t)

def visitSuite (s : Json) : Option (List (Option Json)) := do
  let own ← (Json.elements (s.field "tests")).mapM visit
  let nested ← (Json.elements (s.field "suites")).attach.mapM fun child => visitSuite child.1
  pure (own.flatten ++ nested.flatten)
termination_by sizeOf s
decreasing_by exact Json.sizeOf_lt_of_mem_elements child.2

/-- The screenshots in a blob, by their names. -/
def BlobData.screenshotFields (blob : BlobData) : List (String × Json) :=
  match blob.screenshots with
  | some (.obj fields) => fields
  | _ => []

def attachmentKeys (blob : BlobData) : Option (List (Option Json)) := do
  let tests ← (blob.tests.filter Json.isObject).mapM visit
  let suites ← (blob.suites.filter Json.isObject).mapM visitSuite
  pure (blob.screenshotFields.map (fun entry => some (.str entry.1)) ++ tests.flatten ++
    suites.flatten)

/-- The name, if it is to be refused; a test need not have an attachment. -/
def refusedKey : Option Json → Option Json
  | none => none
  | some .null => none
  | some (.str key) => if plainKey key then none else some (.str key)
  | some key => some key

def checkAttachmentKeys (b : ParsedBlob) : Except BlobMergeError Unit := do
  let keys ← orThrow (.invalid b.file .entry) (attachmentKeys b.blob)
  match keys.findSome? refusedKey with
  | some key => .error (.attachmentName b.file key)
  | none => .ok ()

/-! ### Restoring -/

structure RestoredError where
  message : String
  stack : Option Json

structure TestResult where
  name : Option Json
  fullName : Option Json
  status : Option Json
  durationMs : Option Json
  error : Option RestoredError
  firstAttemptError : Option RestoredError
  failedAttemptArtifacts : Option Json
  warnings : Option Json
  fileLevelFailure : Bool
  screenshotPath : Option String
  tracePath : Option String
  videoPath : Option String
  retry : Option Json

/-- `t.status === 'failed'`. -/
def TestResult.failed (t : TestResult) : Bool :=
  match t.status with
  | some (.str status) => status = "failed"
  | _ => false

structure SuiteInfo where
  name : Option Json
  durationMs : Option Json

abbrev SuiteResult := Group SuiteInfo TestResult

/-- `Boolean(value)`. -/
def truthy : Option Json → Bool
  | none => false
  | some .null => false
  | some (.bool b) => b
  | some (.num n) => n ≠ 0
  | some (.str s) => s ≠ ""
  | some _ => true

/-- `new Error(message)` with a stack; `none` where the message cannot be made a string. -/
def restoreError (node : Node K) (value : Option Json) : Option (Option RestoredError) :=
  match value.filter (truthy ∘ some) with
  | none => some none
  | some value => do
    let message ← (value.field "message").elim (some "") node.string
    pure (some ⟨message, value.field "stack"⟩)

/-- `path.join` throws where the key is no string. -/
def restorePath (blobDir : String) (key : Option Json) : Option (Option String) :=
  match key.filter (truthy ∘ some) with
  | none => some none
  | some (.str key) => some (some (join blobDir key))
  | some _ => none

def restoreTest (node : Node K) (blobDir : String) (t : Json) : Option TestResult :=
  match t with
  | .null => none
  | t => do
    let error ← restoreError node (t.field "error")
    let firstAttemptError ← restoreError node (t.field "firstAttemptError")
    let screenshotPath ← restorePath blobDir (t.field "screenshotKey")
    let tracePath ← restorePath blobDir (t.field "traceKey")
    let videoPath ← restorePath blobDir (t.field "videoKey")
    pure {
      name := t.field "name"
      fullName := t.field "fullName"
      status := t.field "status"
      durationMs := t.field "durationMs"
      error := error
      firstAttemptError := firstAttemptError
      failedAttemptArtifacts := t.field "failedAttemptArtifacts"
      warnings := t.field "warnings"
      fileLevelFailure := truthy (t.field "fileLevelFailure")
      screenshotPath := screenshotPath
      tracePath := tracePath
      videoPath := videoPath
      retry := t.field "retry" }

/-- Where `tests` or `suites` is no array, there is no `map`. -/
def deserializeSuite (node : Node K) (blobDir : String) (s : Json) : Option SuiteResult := do
  let _ ← Json.array (s.field "tests")
  let _ ← Json.array (s.field "suites")
  let tests ← (Json.elements (s.field "tests")).mapM (restoreTest node blobDir)
  let suites ← (Json.elements (s.field "suites")).attach.mapM fun child =>
    deserializeSuite node blobDir child.1
  pure (.mk ⟨s.field "name", s.field "durationMs"⟩ tests suites)
termination_by sizeOf s
decreasing_by exact Json.sizeOf_lt_of_mem_elements child.2

/-- The first pass over a blob. -/
def restoreBlob (node : Node K) (blobDir : String) (b : ParsedBlob) :
    Except BlobMergeError (List TestResult × List SuiteResult) := do
  checkAttachmentKeys b
  let tests ← orThrow (.invalid b.file .entry) (b.blob.tests.mapM (restoreTest node blobDir))
  let suites ← orThrow (.invalid b.file .entry)
    (b.blob.suites.mapM (deserializeSuite node blobDir))
  pure (tests, suites)

/-! ### Screenshots -/

/-- A screenshot that the second pass comes to. -/
structure Screenshot where
  file : String
  key : String
  base64 : String

/-- Only strings are screenshots. -/
def ParsedBlob.screenshots (b : ParsedBlob) : List Screenshot :=
  b.blob.screenshotFields.filterMap fun entry =>
    match entry.2 with
    | .str base64 => some ⟨b.file, entry.1, base64⟩
    | _ => none

/-- The directory while the second pass writes to it, and the paths that it looks for and writes. -/
structure Disk where
  entries : List (String × Item)
  reads : List String := []
  writes : List String := []

def Disk.names (disk : Disk) : List String := disk.entries.map Prod.fst

/-- What is there is not overwritten; the first screenshot that cannot be created ends the pass. -/
def restoreScreenshots (node : Node K) (blobDir : String) :
    List Screenshot → Disk → Disk × Except BlobMergeError Unit
  | [], disk => (disk, .ok ())
  | shot :: shots, disk =>
    let looked := { disk with reads := disk.reads ++ [join blobDir shot.key] }
    if shot.key ∈ disk.names then restoreScreenshots node blobDir shots looked
    else if node.creatable shot.key then
      restoreScreenshots node blobDir shots { looked with
        entries := disk.entries ++ [(shot.key, .file (node.base64 shot.base64))]
        writes := disk.writes ++ [join blobDir shot.key] }
    else (looked, .error (.cannotRestore shot.key shot.file))

/-! ### Merging -/

structure FullResult where
  status : RunStatus
  duration : Json
  tests : List TestResult
  suites : List SuiteResult

structure MergeInfo where
  blobCount : ℕ
  shardTotal : Option ℕ
  missingShards : List ℕ

/-- What comes out of the checks and the first pass. -/
structure Validated where
  blobs : List ParsedBlob
  shards : Option ℕ × List ℕ
  restored : List (List TestResult × List SuiteResult)

/-- What a merge returns or throws, the directory after it, and the paths that it touched. -/
structure Outcome where
  result : Except BlobMergeError (FullResult × MergeInfo)
  entries : List (String × Item)
  reads : List String
  writes : List String

variable [LinearOrder K]

/-- The order of the merge: by shard, then by file name. -/
def before (collation : String → K) (a b : ParsedBlob) : Prop :=
  a.current < b.current ∨ (a.current = b.current ∧ collation a.file ≤ collation b.file)

instance (collation : String → K) : DecidableRel (before collation) :=
  fun _ _ => inferInstanceAs (Decidable (_ ∨ _))

/-- Everything before the first write, and the paths that it reads. -/
def validate (node : Node K) (blobDir : String) (dir : Directory) :
    List String × Except BlobMergeError Validated :=
  let files := ((dir.entries.map Prod.fst).filter isJsonl).insertionSort (· ≤ ·)
  let parsed := parseBlobs node blobDir dir.entries files
  (blobDir :: parsed.1, do
    ensure .noReports (files ≠ [])
    let blobs ← parsed.2
    let shards ← checkShards blobs
    let blobs := blobs.insertionSort (before node.collation)
    let restored ← blobs.mapM (restoreBlob node blobDir)
    pure ⟨blobs, shards, restored⟩)

def Validated.screenshots (v : Validated) : List Screenshot :=
  v.blobs.flatMap ParsedBlob.screenshots

def mergedResult (node : Node K) (v : Validated) : FullResult × MergeInfo :=
  let tests := v.restored.flatMap Prod.fst
  ({ status := if tests.any TestResult.failed ∨ v.shards.2 ≠ [] then .failed else .passed
     duration := v.blobs.foldl (fun total b => node.max total b.blob.duration) (.num 0)
     tests := tests
     suites := v.restored.flatMap Prod.snd },
   { blobCount := v.blobs.length
     shardTotal := v.shards.1
     missingShards := v.shards.2 })

def mergeBlobs (node : Node K) (blobDir : String) (dir : Directory) : Outcome :=
  let checked := validate node blobDir dir
  match checked.2 with
  | .error e =>
    { result := .error e
      entries := dir.entries
      reads := checked.1
      writes := [] }
  | .ok v =>
    let restored := restoreScreenshots node blobDir v.screenshots
      { entries := dir.entries, reads := checked.1 }
    { result := restored.2.map fun _ => mergedResult node v
      entries := restored.1.entries
      reads := restored.1.reads
      writes := restored.1.writes }

end Tapsmith.Report.Untrusted
