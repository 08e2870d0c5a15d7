import Tapsmith.Lib.Pointwise
import Tapsmith.Report.Untrusted

namespace Tapsmith.Report.Untrusted

open Lib Lib.Fallible

/-!
# All or nothing

What a merge leaves behind, whatever is in the blob directory.

* `Inside`, `Split`, `Merges` — a path that stays in the directory, blobs of one split, and what a
  merge that returns has done;
* `AllOrNothing` — a merge that is refused has written nothing, one that returns has merged and
  restored everything, and no path leads out of the directory;
* `Restorable` — the file system takes the names of all missing screenshots, or not even the first;
* `mergeBlobs_allOrNothing_iff` — the two are the same.  Everything but the refusal holds anyway.
-/

variable {K : Type} {node : Node K} {blobDir : String}

/-! ### Specification -/

/-- The directory itself, or an entry of it. -/
def Inside (blobDir path : String) : Prop :=
  path = blobDir ∨ ∃ name, BareName name ∧ path = join blobDir name

def TestResult.paths (t : TestResult) : List String :=
  t.screenshotPath.toList ++ t.tracePath.toList ++ t.videoPath.toList

def FullResult.paths (result : FullResult) : List String :=
  (result.tests ++ Group.leavesAll result.suites).flatMap TestResult.paths

def TestResult.Failed (t : TestResult) : Prop := t.status = some (.str "failed")

/-- No blob has a shard, or each has another one of the same total. -/
inductive Split (blobs : List ParsedBlob) : Option ℕ → Prop
  | unsharded (h : ∀ b ∈ blobs, b.blob.shard = none) : Split blobs none
  | sharded (total : ℕ)
      (h : ∀ b ∈ blobs, ∃ s, b.blob.shard = some s ∧ s.total = total ∧
        1 ≤ s.current ∧ s.current ≤ total)
      (distinct : (blobs.map ParsedBlob.current).Nodup) : Split blobs (some total)

/-- A shard of the total that none of the blobs is. -/
def Missing (blobs : List ParsedBlob) (total : Option ℕ) (shard : ℕ) : Prop :=
  ∃ n, total = some n ∧ 1 ≤ shard ∧ shard ≤ n ∧ ∀ b ∈ blobs, b.current ≠ shard

/-- The blobs are those of the directory, and the result is made of them. -/
structure Merges (node : Node K) (blobDir : String) (dir : Directory) (blobs : List ParsedBlob)
    (merged : FullResult × MergeInfo) (after : List (String × Item)) : Prop where
  files : (blobs.map ParsedBlob.file).Perm ((dir.entries.map Prod.fst).filter isJsonl)
  parsed : ∀ b ∈ blobs, parseBlob node dir.entries b.file = .ok b.blob
  restored : ∃ restored, List.Forall₂ (fun b r => restoreBlob node blobDir b = .ok r) blobs restored ∧
    merged.1.tests = restored.flatMap Prod.fst ∧ merged.1.suites = restored.flatMap Prod.snd
  split : Split blobs merged.2.shardTotal
  failed : merged.1.status = .failed ↔
    (∃ t ∈ merged.1.tests, t.Failed) ∨ ∃ shard, Missing blobs merged.2.shardTotal shard
  present : ∀ b ∈ blobs, ∀ shot ∈ b.screenshots, shot.key ∈ after.map Prod.fst

variable [LinearOrder K]

structure AllOrNothing (node : Node K) (blobDir : String) (dir : Directory) : Prop where
  refused : ∀ e, (mergeBlobs node blobDir dir).result = .error e →
    (mergeBlobs node blobDir dir).writes = [] ∧
      (mergeBlobs node blobDir dir).entries = dir.entries
  merged : ∀ merged, (mergeBlobs node blobDir dir).result = .ok merged →
    ∃ blobs, Merges node blobDir dir blobs merged (mergeBlobs node blobDir dir).entries
  touched : ∀ path ∈ (mergeBlobs node blobDir dir).reads ++ (mergeBlobs node blobDir dir).writes,
    Inside blobDir path
  results : ∀ merged, (mergeBlobs node blobDir dir).result = .ok merged →
    ∀ path ∈ merged.1.paths, Inside blobDir path

/-- The screenshots of a set that is not refused, as far as the directory lacks them. -/
def lacking (dir : Directory) (v : Validated) : List Screenshot :=
  v.screenshots.filter fun shot => shot.key ∉ dir.entries.map Prod.fst

/-- If the first of them can be created, then all can. -/
def Restorable (node : Node K) (blobDir : String) (dir : Directory) : Prop :=
  ∀ v, (validate node blobDir dir).2 = .ok v → ∀ shot shots, lacking dir v = shot :: shots →
    node.creatable shot.key → ∀ later ∈ shots, node.creatable later.key

/-! ### Names -/

omit [LinearOrder K] in
theorem bareName_of_plainKey {key : String} (h : plainKey key = true) : BareName key := by
  simp only [plainKey, Bool.and_eq_true, decide_eq_true_eq, Bool.not_eq_true',
    List.contains_eq_mem, decide_eq_false_iff_not] at h
  exact ⟨h.1.1.1.1.1.1, h.1.1.1.1.1.2, h.1.1.1.1.2, h.1.1.2⟩

theorem inside_join {key : String} (h : plainKey key = true) : Inside blobDir (join blobDir key) :=
  .inr ⟨key, bareName_of_plainKey h, rfl⟩

/-! ### Reading -/

omit [LinearOrder K] in
theorem shardOf_bounds {shard : Json} {s : ShardInfo} (h : shardOf shard = some s) :
    1 ≤ s.current ∧ s.current ≤ s.total := by
  simp only [shardOf, Option.bind_eq_bind, Option.bind_eq_some_iff, Option.guard_eq_some',
    Option.pure_def, Option.some.injEq] at h
  obtain ⟨current, -, total, -, -, ⟨hlow, hhigh⟩, rfl⟩ := h
  dsimp only
  omega

omit [LinearOrder K] in
theorem parseShard_bounds {value : Option Json} {s : ShardInfo}
    (h : parseShard value = some (some s)) : 1 ≤ s.current ∧ s.current ≤ s.total := by
  unfold parseShard at h
  split at h
  · exact absurd (Option.some.inj h) (by simp)
  · exact absurd (Option.some.inj h) (by simp)
  · obtain ⟨s', hs', heq⟩ := Option.map_eq_some_iff.mp h
    rw [Option.some.inj heq] at hs'
    exact shardOf_bounds hs'

omit [LinearOrder K] in
/-- A blob that is taken has a shard within its total, or none. -/
theorem parseBlob_bounds {entries : List (String × Item)} {file : String} {blob : BlobData}
    (h : parseBlob node entries file = .ok blob) {s : ShardInfo} (hs : blob.shard = some s) :
    1 ≤ s.current ∧ s.current ≤ s.total := by
  simp only [parseBlob, bind_eq_ok, orThrow_eq_ok, ensure_eq_ok] at h
  obtain ⟨_, -, _, -, parsed, -, _, -, _, -, _, -, _, -, _, -, _, -, _, -, shard, hshard, hblob⟩ := h
  obtain rfl := Except.ok.inj hblob
  obtain rfl : shard = some s := hs
  exact parseShard_bounds hshard

omit [LinearOrder K] in
theorem mem_parseBlobs {entries : List (String × Item)} {files : List String} {path : String}
    (h : path ∈ (parseBlobs node blobDir entries files).1) : ∃ file ∈ files, path = join blobDir file := by
  induction files with
  | nil => exact absurd h List.not_mem_nil
  | cons file files ih =>
    unfold parseBlobs at h
    split at h
    case h_1 =>
      -- the first file is refused, and no other is read
      exact ⟨file, List.mem_cons_self, List.mem_singleton.mp h⟩
    case h_2 =>
      rcases List.mem_cons.mp h with rfl | h
      · exact ⟨file, List.mem_cons_self, rfl⟩
      · obtain ⟨other, hother, hpath⟩ := ih h
        exact ⟨other, List.mem_cons_of_mem _ hother, hpath⟩

omit [LinearOrder K] in
theorem parseBlobs_eq_ok {entries : List (String × Item)} {files : List String}
    {blobs : List ParsedBlob} (h : (parseBlobs node blobDir entries files).2 = .ok blobs) :
    blobs.map ParsedBlob.file = files ∧
      ∀ b ∈ blobs, parseBlob node entries b.file = .ok b.blob := by
  induction files generalizing blobs with
  | nil =>
    obtain rfl := Except.ok.inj h
    exact ⟨rfl, fun b hb => absurd hb List.not_mem_nil⟩
  | cons file files ih =>
    unfold parseBlobs at h
    split at h
    case h_1 => cases h
    case h_2 blob hblob =>
      dsimp only at h
      cases hrest : (parseBlobs node blobDir entries files).2 with
      | error e =>
        rw [hrest] at h
        cases h
      | ok rest =>
        rw [hrest] at h
        obtain rfl := Except.ok.inj h
        obtain ⟨hfiles, hparsed⟩ := ih hrest
        refine ⟨congrArg (file :: ·) hfiles, fun b hb => ?_⟩
        rcases List.mem_cons.mp hb with rfl | hb
        · exact hblob
        · exact hparsed b hb

/-! ### Shards -/

omit [LinearOrder K] in
theorem nodup_of_count {α β : Type} [DecidableEq β] {f : α → β} {l : List α}
    (h : ∀ a ∈ l, (l.filter fun b => f b = f a).length ≤ 1) : (l.map f).Nodup := by
  rw [List.nodup_iff_count_le_one]
  intro b
  by_cases hb : b ∈ l.map f
  · obtain ⟨a, ha, rfl⟩ := List.mem_map.mp hb
    rw [List.count_eq_length_filter, List.filter_map, List.length_map]
    exact h a ha
  · rw [List.count_eq_zero.mpr hb]
    exact Nat.zero_le 1

omit [LinearOrder K] in
/-- What is accepted is one split, and the shards that are missing from it are known. -/
theorem checkShards_eq_ok {blobs : List ParsedBlob} {total : Option ℕ} {missing : List ℕ}
    (hbounds : ∀ b ∈ blobs, ∀ s, b.blob.shard = some s → 1 ≤ s.current ∧ s.current ≤ s.total)
    (h : checkShards blobs = .ok (total, missing)) :
    Split blobs total ∧ ∀ shard, shard ∈ missing ↔ Missing blobs total shard := by
  unfold checkShards at h
  split at h
  case h_1 hnone =>
    obtain ⟨rfl, rfl⟩ := Prod.mk.inj (Except.ok.inj h)
    refine ⟨.unsharded fun b hb => ?_, fun shard => ?_⟩
    · have hb' := List.filter_eq_nil_iff.mp hnone b hb
      simpa using hb'
    · simp [Missing]
  case h_2 first rest hsharded =>
    split at h
    case h_1 => cases h
    case h_2 hall =>
      -- every blob is sharded
      have hsome : ∀ b ∈ blobs, b.blob.shard.isSome := by
        intro b hb
        have hb' := List.find?_eq_none.mp hall b hb
        cases hshard : b.blob.shard with
        | none => simp [hshard] at hb'
        | some s => rfl
      have hblobs : first :: rest = blobs := by
        rw [← hsharded, List.filter_eq_self.mpr hsome]
      rw [hblobs] at h
      split at h
      case h_1 => cases h
      case h_2 htotals =>
        dsimp only at h
        split at h
        case h_1 => cases h
        case h_2 hdup =>
          obtain ⟨rfl, rfl⟩ := Prod.mk.inj (Except.ok.inj h)
          have htotal : ∀ b ∈ blobs, b.total = first.total := by
            intro b hb
            simpa using List.find?_eq_none.mp htotals b hb
          have hinfo : ∀ b ∈ blobs, ∃ s, b.blob.shard = some s ∧ s.total = first.total ∧
              1 ≤ s.current ∧ s.current ≤ first.total := by
            intro b hb
            obtain ⟨s, hs⟩ := Option.isSome_iff_exists.mp (hsome b hb)
            have hsum : s.total = first.total := by
              rw [← htotal b hb, ParsedBlob.total, hs]
              rfl
            obtain ⟨hlow, hhigh⟩ := hbounds b hb s hs
            exact ⟨s, hs, hsum, hlow, hsum ▸ hhigh⟩
          refine ⟨.sharded _ hinfo (nodup_of_count fun b hb => ?_), fun shard => ?_⟩
          · have hb' : b.current ∈ (blobs.map ParsedBlob.current).insertionSort (· ≤ ·) :=
              (List.perm_insertionSort _ _).mem_iff.mpr (List.mem_map_of_mem hb)
            simpa using List.find?_eq_none.mp hdup b.current hb'
          · rw [List.mem_filter, List.mem_range'_1, decide_eq_true_eq, List.map_eq_nil_iff,
              List.filter_eq_nil_iff]
            constructor
            · intro ⟨⟨hlow, hhigh⟩, hno⟩
              exact ⟨first.total, rfl, hlow, by omega, fun b hb => by simpa using hno b hb⟩
            · intro ⟨n, hn, hlow, hhigh, hno⟩
              obtain rfl := Option.some.inj hn
              exact ⟨⟨hlow, by omega⟩, fun b hb => by simpa using hno b hb⟩

omit [LinearOrder K] in
theorem Split.perm {blobs blobs' : List ParsedBlob} {total : Option ℕ} (hperm : blobs.Perm blobs')
    (h : Split blobs total) : Split blobs' total := by
  cases h with
  | unsharded h => exact .unsharded fun b hb => h b (hperm.mem_iff.mpr hb)
  | sharded total h distinct =>
    exact .sharded total (fun b hb => h b (hperm.mem_iff.mpr hb))
      ((hperm.map _).nodup_iff.mp distinct)

omit [LinearOrder K] in
theorem Missing.perm {blobs blobs' : List ParsedBlob} {total : Option ℕ} {shard : ℕ}
    (hperm : blobs.Perm blobs') : Missing blobs total shard ↔ Missing blobs' total shard := by
  simp only [Missing, hperm.mem_iff]

/-! ### Attachment names -/

omit [LinearOrder K] in
theorem visitSuite_eq (s : Json) : visitSuite s = (do
    let own ← (Json.elements (s.field "tests")).mapM visit
    let nested ← (Json.elements (s.field "suites")).mapM visitSuite
    pure (own.flatten ++ nested.flatten)) := by
  rw [visitSuite, List.mapM_subtype fun _ _ => rfl, List.unattach_attach]

omit [LinearOrder K] in
theorem deserializeSuite_eq (s : Json) : deserializeSuite node blobDir s = (do
    let _ ← Json.array (s.field "tests")
    let _ ← Json.array (s.field "suites")
    let tests ← (Json.elements (s.field "tests")).mapM (restoreTest node blobDir)
    let suites ← (Json.elements (s.field "suites")).mapM (deserializeSuite node blobDir)
    pure (.mk ⟨s.field "name", s.field "durationMs"⟩ tests suites)) := by
  rw [deserializeSuite, List.mapM_subtype fun _ _ => rfl, List.unattach_attach]

omit [LinearOrder K] in
theorem restorePath_eq_some {key : Option Json} {path : String}
    (h : restorePath blobDir key = some (some path)) :
    ∃ name, key = some (.str name) ∧ path = join blobDir name := by
  unfold restorePath at h
  split at h
  case h_1 => cases h
  case h_2 name hname =>
    exact ⟨name, (Option.filter_eq_some_iff.mp hname).1, (Option.some.inj (Option.some.inj h)).symm⟩
  case h_3 => cases h

omit [LinearOrder K] in
/-- The paths in a restored test are those of its attachment names. -/
theorem restoreTest_paths {t : Json} {r : TestResult} (h : restoreTest node blobDir t = some r)
    {path : String} (hpath : path ∈ r.paths) :
    ∃ name, some (.str name) ∈ attachments t ∧ path = join blobDir name := by
  unfold restoreTest at h
  split at h
  case h_1 => cases h
  case h_2 =>
    simp only [Option.bind_eq_bind, Option.bind_eq_some_iff, Option.pure_def,
      Option.some.injEq] at h
    obtain ⟨_, -, _, -, screenshot, hscreenshot, trace, htrace, video, hvideo, rfl⟩ := h
    simp only [TestResult.paths, List.mem_append, Option.mem_toList] at hpath
    simp only [attachments, List.mem_cons, List.not_mem_nil, or_false]
    rcases hpath with (rfl | rfl) | rfl
    · obtain ⟨name, hname, heq⟩ := restorePath_eq_some hscreenshot
      exact ⟨name, .inl hname.symm, heq⟩
    · obtain ⟨name, hname, heq⟩ := restorePath_eq_some htrace
      exact ⟨name, .inr (.inl hname.symm), heq⟩
    · obtain ⟨name, hname, heq⟩ := restorePath_eq_some hvideo
      exact ⟨name, .inr (.inr hname.symm), heq⟩

omit [LinearOrder K] in
theorem visit_eq_some {t : Json} {keys : List (Option Json)} (h : visit t = some keys) :
    keys = attachments t := by
  unfold visit at h
  split at h
  · cases h
  · exact (Option.some.inj h).symm

omit [LinearOrder K] in
/-- Every path in a suite is that of a name that was looked at. -/
theorem deserializeSuite_paths (s : Json) : ∀ {g : SuiteResult} {keys : List (Option Json)},
    deserializeSuite node blobDir s = some g → visitSuite s = some keys →
    ∀ r ∈ Group.leaves g, ∀ path ∈ r.paths,
      ∃ name, some (.str name) ∈ keys ∧ path = join blobDir name := by
  induction s using Json.fieldInduction "suites" with
  | step s ih =>
    intro g keys hg hkeys r hr path hpath
    rw [deserializeSuite_eq] at hg
    rw [visitSuite_eq] at hkeys
    simp only [Option.bind_eq_bind, Option.bind_eq_some_iff, Option.pure_def,
      Option.some.injEq, mapM_eq_some] at hg hkeys
    obtain ⟨_, -, _, -, tests, htests, suites, hsuites, rfl⟩ := hg
    obtain ⟨own, hown, nested, hnested, rfl⟩ := hkeys
    rcases List.mem_append.mp (show r ∈ tests ++ Group.leavesAll suites from hr) with hr | hr
    · -- a test of the suite itself
      obtain ⟨t, ht, hrestore⟩ := Pointwise.exists_of_mem_right htests hr
      obtain ⟨ks, hks, hvisit⟩ := Pointwise.exists_of_mem_left hown ht
      obtain ⟨name, hname, heq⟩ := restoreTest_paths hrestore hpath
      rw [← visit_eq_some hvisit] at hname
      exact ⟨name, List.mem_append_left _ (List.mem_flatten.mpr ⟨ks, hks, hname⟩), heq⟩
    · -- a test of a suite within it
      rw [Group.leavesAll_eq_flatMap] at hr
      obtain ⟨g, hg, hr⟩ := List.mem_flatMap.mp hr
      obtain ⟨child, hchild, hdeserialize⟩ := Pointwise.exists_of_mem_right hsuites hg
      obtain ⟨ks, hks, hvisit⟩ := Pointwise.exists_of_mem_left hnested hchild
      obtain ⟨name, hname, heq⟩ := ih child hchild hdeserialize hvisit r hr path hpath
      exact ⟨name, List.mem_append_right _ (List.mem_flatten.mpr ⟨ks, hks, hname⟩), heq⟩

omit [LinearOrder K] in
theorem checkAttachmentKeys_eq_ok {b : ParsedBlob} {u : Unit} (h : checkAttachmentKeys b = .ok u) :
    ∃ keys, attachmentKeys b.blob = some keys ∧
      ∀ name, some (.str name) ∈ keys → plainKey name = true := by
  unfold checkAttachmentKeys at h
  obtain ⟨keys, hkeys, h⟩ := bind_eq_ok.mp h
  refine ⟨keys, orThrow_eq_ok.mp hkeys, fun name hname => ?_⟩
  split at h
  case h_1 => cases h
  case h_2 hnone =>
    have hkey := List.findSome?_eq_none_iff.mp hnone _ hname
    by_contra hplain
    rw [show refusedKey (some (.str name)) = _ from if_neg hplain] at hkey
    cases hkey

omit [LinearOrder K] in
theorem isObject_of_field {value held : Json} {name : String}
    (h : value.field name = some held) : value.isObject = true := by
  cases value with
  | obj fields => rfl
  | _ => cases h

omit [LinearOrder K] in
/-- What the first pass makes of a blob has no path but those of plain names. -/
theorem restoreBlob_paths {b : ParsedBlob} {restored : List TestResult × List SuiteResult}
    (h : restoreBlob node blobDir b = .ok restored) :
    ∀ r ∈ restored.1 ++ Group.leavesAll restored.2, ∀ path ∈ r.paths, Inside blobDir path := by
  unfold restoreBlob at h
  simp only [bind_eq_ok, orThrow_eq_ok, mapM_eq_some] at h
  obtain ⟨_, hcheck, tests, htests, suites, hsuites, heq⟩ := h
  obtain rfl := Except.ok.inj heq
  obtain ⟨keys, hkeys, hplain⟩ := checkAttachmentKeys_eq_ok hcheck
  simp only [attachmentKeys, Option.bind_eq_bind, Option.bind_eq_some_iff, Option.pure_def,
    Option.some.injEq, mapM_eq_some] at hkeys
  obtain ⟨own, hown, nested, hnested, rfl⟩ := hkeys
  intro r hr path hpath
  suffices hname : ∃ name, some (.str name) ∈ own.flatten ++ nested.flatten ∧
      path = join blobDir name by
    obtain ⟨name, hname, rfl⟩ := hname
    refine inside_join (hplain name ?_)
    rw [List.append_assoc]
    exact List.mem_append_right _ hname
  rcases List.mem_append.mp hr with hr | hr
  · obtain ⟨t, ht, hrestore⟩ := Pointwise.exists_of_mem_right htests hr
    obtain ⟨name, hname, heq⟩ := restoreTest_paths hrestore hpath
    -- a test that names something is an object, so that its names were looked at
    have hobject : t.isObject = true := by
      simp only [attachments, List.mem_cons, List.not_mem_nil, or_false] at hname
      rcases hname with hname | hname | hname
      · exact isObject_of_field hname.symm
      · exact isObject_of_field hname.symm
      · exact isObject_of_field hname.symm
    obtain ⟨ks, hks, hvisit⟩ :=
      Pointwise.exists_of_mem_left hown (List.mem_filter.mpr ⟨ht, hobject⟩)
    rw [← visit_eq_some hvisit] at hname
    exact ⟨name, List.mem_append_left _ (List.mem_flatten.mpr ⟨ks, hks, hname⟩), heq⟩
  · rw [Group.leavesAll_eq_flatMap] at hr
    obtain ⟨g, hg, hr⟩ := List.mem_flatMap.mp hr
    obtain ⟨s, hs, hdeserialize⟩ := Pointwise.exists_of_mem_right hsuites hg
    have hobject : s.isObject = true := by
      rw [deserializeSuite_eq] at hdeserialize
      obtain ⟨items, hitems, -⟩ := Option.bind_eq_some_iff.mp hdeserialize
      cases hfield : s.field "tests" with
      | none =>
        rw [hfield] at hitems
        cases hitems
      | some held => exact isObject_of_field hfield
    obtain ⟨ks, hks, hvisit⟩ :=
      Pointwise.exists_of_mem_left hnested (List.mem_filter.mpr ⟨hs, hobject⟩)
    obtain ⟨name, hname, heq⟩ := deserializeSuite_paths s hdeserialize hvisit r hr path hpath
    exact ⟨name, List.mem_append_right _ (List.mem_flatten.mpr ⟨ks, hks, hname⟩), heq⟩

omit [LinearOrder K] in
/-- The screenshots of a blob that the first pass takes have plain names. -/
theorem restoreBlob_screenshots {b : ParsedBlob} {restored : List TestResult × List SuiteResult}
    (h : restoreBlob node blobDir b = .ok restored) {shot : Screenshot}
    (hshot : shot ∈ b.screenshots) : plainKey shot.key = true := by
  unfold restoreBlob at h
  obtain ⟨_, hcheck, -⟩ := bind_eq_ok.mp h
  obtain ⟨keys, hkeys, hplain⟩ := checkAttachmentKeys_eq_ok hcheck
  simp only [attachmentKeys, Option.bind_eq_bind, Option.bind_eq_some_iff, Option.pure_def,
    Option.some.injEq] at hkeys
  obtain ⟨own, -, nested, -, rfl⟩ := hkeys
  refine hplain shot.key (List.mem_append_left _ (List.mem_append_left _ ?_))
  obtain ⟨entry, hentry, heq⟩ := List.mem_filterMap.mp hshot
  have hkey : entry.1 = shot.key := by
    split at heq
    · rw [← Option.some.inj heq]
    · cases heq
  exact List.mem_map.mpr ⟨entry, hentry, by rw [hkey]⟩

/-! ### The second pass -/

section SecondPass

variable {shots before after : List Screenshot} {shot : Screenshot} {disk : Disk}

variable (node blobDir after) in
omit [LinearOrder K] in
/-- Where all names are taken, nothing is written. -/
theorem restoreScreenshots_present (h : ∀ shot ∈ before, shot.key ∈ disk.names) :
    ∃ reads, restoreScreenshots node blobDir (before ++ after) disk =
      restoreScreenshots node blobDir after { disk with reads := reads } := by
  induction before generalizing disk with
  | nil => exact ⟨disk.reads, rfl⟩
  | cons shot before ih =>
    rw [List.cons_append, restoreScreenshots, if_pos (h shot List.mem_cons_self)]
    exact ih fun s hs => h s (List.mem_cons_of_mem _ hs)

omit [LinearOrder K] in
/-- A pass that can create what is lacking comes to its end. -/
theorem restoreScreenshots_ok (h : ∀ shot ∈ shots, shot.key ∉ disk.names → node.creatable shot.key) :
    (restoreScreenshots node blobDir shots disk).2 = .ok () := by
  induction shots generalizing disk with
  | nil => rfl
  | cons shot shots ih =>
    unfold restoreScreenshots
    dsimp only
    split_ifs with hthere hcreatable
    · exact ih fun s hs => h s (List.mem_cons_of_mem _ hs)
    · refine ih fun s hs hlacks => h s (List.mem_cons_of_mem _ hs) fun hmem => hlacks ?_
      simp only [Disk.names, List.map_append, List.mem_append]
      exact .inl hmem
    · exact absurd (h shot List.mem_cons_self hthere) hcreatable

omit [LinearOrder K] in
/-- A screenshot that is lacking and cannot be created ends the pass, there or before. -/
theorem restoreScreenshots_error (hshot : shot ∈ shots) (hlacks : shot.key ∉ disk.names)
    (hno : node.creatable shot.key = false) :
    ∃ e, (restoreScreenshots node blobDir shots disk).2 = .error e := by
  induction shots generalizing disk with
  | nil => exact absurd hshot List.not_mem_nil
  | cons first shots ih =>
    unfold restoreScreenshots
    dsimp only
    split_ifs with hthere hcreatable
    · rcases List.mem_cons.mp hshot with rfl | hshot
      · exact absurd hthere hlacks
      · exact ih hshot hlacks
    · rcases List.mem_cons.mp hshot with rfl | hshot
      · rw [hno] at hcreatable
        cases hcreatable
      · refine ih hshot fun hmem => ?_
        simp only [Disk.names, List.map_append, List.mem_append, List.map_cons, List.map_nil,
          List.mem_singleton] at hmem
        rcases hmem with hmem | hmem
        · exact hlacks hmem
        · rw [hmem, hcreatable] at hno
          cases hno
    · exact ⟨_, rfl⟩

omit [LinearOrder K] in
/-- What is in the directory stays there. -/
theorem restoreScreenshots_names {name : String} (h : name ∈ disk.names) :
    name ∈ (restoreScreenshots node blobDir shots disk).1.names := by
  induction shots generalizing disk with
  | nil => exact h
  | cons shot shots ih =>
    unfold restoreScreenshots
    dsimp only
    split_ifs
    · exact ih h
    · refine ih ?_
      simp only [Disk.names, List.map_append, List.mem_append]
      exact .inl h
    · exact h

omit [LinearOrder K] in
/-- A pass that comes to its end has restored every screenshot. -/
theorem restoreScreenshots_restored (hok : (restoreScreenshots node blobDir shots disk).2 = .ok ())
    (hshot : shot ∈ shots) : shot.key ∈ (restoreScreenshots node blobDir shots disk).1.names := by
  induction shots generalizing disk with
  | nil => exact absurd hshot List.not_mem_nil
  | cons first shots ih =>
    unfold restoreScreenshots at hok ⊢
    dsimp only at hok ⊢
    split_ifs at hok ⊢ with hthere hcreatable
    · rcases List.mem_cons.mp hshot with rfl | hshot
      · exact restoreScreenshots_names hthere
      · exact ih hok hshot
    · rcases List.mem_cons.mp hshot with rfl | hshot
      · refine restoreScreenshots_names ?_
        simp [Disk.names]
      · exact ih hok hshot

omit [LinearOrder K] in
/-- A pass touches what was touched before, and the names of its screenshots. -/
theorem restoreScreenshots_touched {path : String}
    (h : path ∈ (restoreScreenshots node blobDir shots disk).1.reads ++
      (restoreScreenshots node blobDir shots disk).1.writes) :
    path ∈ disk.reads ++ disk.writes ∨ ∃ shot ∈ shots, path = join blobDir shot.key := by
  induction shots generalizing disk with
  | nil => exact .inl h
  | cons first shots ih =>
    have hfirst : ∃ shot ∈ first :: shots, join blobDir first.key = join blobDir shot.key :=
      ⟨first, List.mem_cons_self, rfl⟩
    unfold restoreScreenshots at h
    dsimp only at h
    split_ifs at h
    · rcases ih h with h | ⟨shot, hshot, heq⟩
      · simp only [List.mem_append, List.mem_singleton] at h ⊢
        rcases h with (h | rfl) | h
        · exact .inl (.inl h)
        · exact .inr hfirst
        · exact .inl (.inr h)
      · exact .inr ⟨shot, List.mem_cons_of_mem _ hshot, heq⟩
    · rcases ih h with h | ⟨shot, hshot, heq⟩
      · simp only [List.mem_append, List.mem_singleton] at h ⊢
        rcases h with (h | rfl) | h | rfl
        · exact .inl (.inl h)
        · exact .inr hfirst
        · exact .inl (.inr h)
        · exact .inr hfirst
      · exact .inr ⟨shot, List.mem_cons_of_mem _ hshot, heq⟩
    · simp only [List.mem_append, List.mem_singleton] at h ⊢
      rcases h with (h | rfl) | h
      · exact .inl (.inl h)
      · exact .inr hfirst
      · exact .inl (.inr h)

omit [LinearOrder K] in
/-- Once a screenshot is created, the directory has one entry more than before. -/
theorem restoreScreenshots_grows (node : Node K) (blobDir : String) (shots : List Screenshot)
    (disk : Disk) :
    disk.entries.length ≤ (restoreScreenshots node blobDir shots disk).1.entries.length := by
  induction shots generalizing disk with
  | nil => exact le_refl _
  | cons shot shots ih =>
    unfold restoreScreenshots
    dsimp only
    split_ifs
    · exact ih { disk with reads := disk.reads ++ [join blobDir shot.key] }
    · refine le_trans ?_ (ih _)
      simp
    · exact le_refl _

end SecondPass

/-! ### The checks -/

section Checks

variable {dir : Directory} {v : Validated}

omit [LinearOrder K] in
theorem inside_of_mem_files {file : String} (h : file ∈ (dir.entries.map Prod.fst).filter isJsonl) :
    Inside blobDir (join blobDir file) := by
  obtain ⟨entry, hentry, rfl⟩ := List.mem_map.mp (List.mem_filter.mp h).1
  exact .inr ⟨entry.1, dir.bare entry hentry, rfl⟩

theorem validate_reads {path : String} (h : path ∈ (validate node blobDir dir).1) :
    Inside blobDir path := by
  rcases List.mem_cons.mp h with rfl | h
  · exact .inl rfl
  · obtain ⟨file, hfile, rfl⟩ := mem_parseBlobs h
    exact inside_of_mem_files ((List.perm_insertionSort _ _).mem_iff.mp hfile)

theorem validate_eq_ok (h : (validate node blobDir dir).2 = .ok v) :
    (v.blobs.map ParsedBlob.file).Perm ((dir.entries.map Prod.fst).filter isJsonl) ∧
      (∀ b ∈ v.blobs, parseBlob node dir.entries b.file = .ok b.blob) ∧
      List.Forall₂ (fun b r => restoreBlob node blobDir b = .ok r) v.blobs v.restored ∧
      Split v.blobs v.shards.1 ∧
      ∀ shard, shard ∈ v.shards.2 ↔ Missing v.blobs v.shards.1 shard := by
  unfold validate at h
  dsimp only at h
  simp only [bind_eq_ok, mapM_eq_ok] at h
  obtain ⟨_, -, blobs, hblobs, ⟨total, missing⟩, hshards, restored, hrestored, heq⟩ := h
  obtain rfl := Except.ok.inj heq
  obtain ⟨hfiles, hparsed⟩ := parseBlobs_eq_ok hblobs
  have hperm := List.perm_insertionSort (before node.collation) blobs
  have hbounds : ∀ b ∈ blobs, ∀ s, b.blob.shard = some s → 1 ≤ s.current ∧ s.current ≤ s.total :=
    fun b hb s hs => parseBlob_bounds (hparsed b hb) hs
  obtain ⟨hsplit, hmissing⟩ := checkShards_eq_ok hbounds hshards
  refine ⟨?_, fun b hb => hparsed b (hperm.mem_iff.mp hb), hrestored, hsplit.perm hperm.symm,
    fun shard => (hmissing shard).trans (Missing.perm hperm.symm)⟩
  refine (hperm.map _).trans ?_
  rw [hfiles]
  exact List.perm_insertionSort _ _

theorem validate_screenshots (h : (validate node blobDir dir).2 = .ok v) {shot : Screenshot}
    (hshot : shot ∈ v.screenshots) : plainKey shot.key = true := by
  obtain ⟨-, -, hrestored, -⟩ := validate_eq_ok h
  obtain ⟨b, hb, hshot⟩ := List.mem_flatMap.mp hshot
  obtain ⟨r, -, hr⟩ := Pointwise.exists_of_mem_left hrestored hb
  exact restoreBlob_screenshots hr hshot

end Checks

/-! ### The merge -/

variable {dir : Directory} {v : Validated}

theorem mergeBlobs_refused {e : BlobMergeError} (h : (validate node blobDir dir).2 = .error e) :
    mergeBlobs node blobDir dir =
      { result := .error e
        entries := dir.entries
        reads := (validate node blobDir dir).1
        writes := [] } := by
  unfold mergeBlobs
  dsimp only
  rw [h]

/-- The second pass. -/
def restored (node : Node K) (blobDir : String) (dir : Directory) (v : Validated) :
    Disk × Except BlobMergeError Unit :=
  restoreScreenshots node blobDir v.screenshots
    { entries := dir.entries, reads := (validate node blobDir dir).1 }

theorem mergeBlobs_validated (h : (validate node blobDir dir).2 = .ok v) :
    mergeBlobs node blobDir dir =
      { result := (restored node blobDir dir v).2.map fun _ => mergedResult node v
        entries := (restored node blobDir dir v).1.entries
        reads := (restored node blobDir dir v).1.reads
        writes := (restored node blobDir dir v).1.writes } := by
  unfold mergeBlobs
  dsimp only
  rw [h]
  rfl

/-- A merge that returns has passed the checks, and its second pass came to its end. -/
theorem mergeBlobs_eq_ok {merged : FullResult × MergeInfo}
    (h : (mergeBlobs node blobDir dir).result = .ok merged) :
    ∃ v, (validate node blobDir dir).2 = .ok v ∧ (restored node blobDir dir v).2 = .ok () ∧
      merged = mergedResult node v := by
  cases hvalid : (validate node blobDir dir).2 with
  | error e =>
    rw [mergeBlobs_refused hvalid] at h
    cases h
  | ok v =>
    rw [mergeBlobs_validated hvalid] at h
    dsimp only at h
    cases hpass : (restored node blobDir dir v).2 with
    | error e =>
      rw [hpass] at h
      cases h
    | ok u =>
      rw [hpass] at h
      exact ⟨v, rfl, hpass, (Except.ok.inj h).symm⟩

omit [LinearOrder K] in
theorem failed_iff {t : TestResult} : t.failed = true ↔ t.Failed := by
  unfold TestResult.Failed TestResult.failed
  split
  case h_1 status hstatus => simp [hstatus]
  case h_2 hno => exact ⟨fun h => absurd h Bool.false_ne_true, fun h => absurd h (hno "failed")⟩

theorem mergeBlobs_merges {merged : FullResult × MergeInfo}
    (h : (mergeBlobs node blobDir dir).result = .ok merged) :
    ∃ blobs, Merges node blobDir dir blobs merged (mergeBlobs node blobDir dir).entries := by
  obtain ⟨v, hvalid, hpass, rfl⟩ := mergeBlobs_eq_ok h
  obtain ⟨hfiles, hparsed, hrestored, hsplit, hmissing⟩ := validate_eq_ok hvalid
  refine ⟨v.blobs, hfiles, hparsed, ⟨v.restored, hrestored, rfl, rfl⟩, hsplit, ?_, ?_⟩
  · have hstatus : (mergedResult node v).1.status = .failed ↔
        (∃ t ∈ (mergedResult node v).1.tests, t.Failed) ∨ v.shards.2 ≠ [] := by
      simp only [← failed_iff, ← List.any_eq_true]
      unfold mergedResult
      dsimp only
      split_ifs with hfailed
      · exact ⟨fun _ => hfailed, fun _ => rfl⟩
      · exact ⟨fun heq => absurd heq (by decide), fun hor => absurd hor hfailed⟩
    rw [hstatus]
    refine or_congr Iff.rfl ?_
    have hmem : v.shards.2 ≠ [] ↔ ∃ shard, shard ∈ v.shards.2 :=
      ⟨List.exists_mem_of_ne_nil _, fun ⟨_, h⟩ => List.ne_nil_of_mem h⟩
    rw [hmem]
    exact exists_congr hmissing
  · intro b hb shot hshot
    rw [mergeBlobs_validated hvalid]
    exact restoreScreenshots_restored hpass (List.mem_flatMap.mpr ⟨b, hb, hshot⟩)

theorem mergeBlobs_touched {path : String}
    (h : path ∈ (mergeBlobs node blobDir dir).reads ++ (mergeBlobs node blobDir dir).writes) :
    Inside blobDir path := by
  cases hvalid : (validate node blobDir dir).2 with
  | error e =>
    rw [mergeBlobs_refused hvalid, List.append_nil] at h
    exact validate_reads h
  | ok v =>
    rw [mergeBlobs_validated hvalid] at h
    rcases restoreScreenshots_touched h with h | ⟨shot, hshot, rfl⟩
    · rw [List.append_nil] at h
      exact validate_reads h
    · exact inside_join (validate_screenshots hvalid hshot)

theorem mergeBlobs_paths {merged : FullResult × MergeInfo}
    (h : (mergeBlobs node blobDir dir).result = .ok merged) :
    ∀ path ∈ merged.1.paths, Inside blobDir path := by
  obtain ⟨v, hvalid, -, rfl⟩ := mergeBlobs_eq_ok h
  obtain ⟨-, -, hrestored, -⟩ := validate_eq_ok hvalid
  intro path hpath
  obtain ⟨r, hr, hpath⟩ := List.mem_flatMap.mp hpath
  -- the blob that the test comes from
  have hpart : ∃ part ∈ v.restored, r ∈ part.1 ++ Group.leavesAll part.2 := by
    rcases List.mem_append.mp hr with hr | hr
    · obtain ⟨part, hpart, hr⟩ := List.mem_flatMap.mp hr
      exact ⟨part, hpart, List.mem_append_left _ hr⟩
    · rw [Group.leavesAll_eq_flatMap] at hr
      obtain ⟨g, hg, hr⟩ := List.mem_flatMap.mp hr
      obtain ⟨part, hpart, hg⟩ := List.mem_flatMap.mp hg
      refine ⟨part, hpart, List.mem_append_right _ ?_⟩
      rw [Group.leavesAll_eq_flatMap]
      exact List.mem_flatMap.mpr ⟨g, hg, hr⟩
  obtain ⟨part, hpart, hr⟩ := hpart
  obtain ⟨b, -, hrestore⟩ := Pointwise.exists_of_mem_right hrestored hpart
  exact restoreBlob_paths hrestore r hr path hpath

variable (node blobDir) in
/-- The second pass, up to the first screenshot that the directory lacks. -/
theorem restored_eq {shot : Screenshot} {shots : List Screenshot}
    (h : lacking dir v = shot :: shots) : ∃ later reads,
      shot.key ∉ dir.entries.map Prod.fst ∧ shots ⊆ later ∧
      (∀ s ∈ shots, s.key ∉ dir.entries.map Prod.fst) ∧
      (∀ s ∈ later, s.key ∉ dir.entries.map Prod.fst → s ∈ shots) ∧
      restored node blobDir dir v = restoreScreenshots node blobDir (shot :: later)
        { entries := dir.entries, reads := reads } := by
  obtain ⟨there, later, hshots, hthere, hshot, rfl⟩ := List.filter_eq_cons_iff.mp h
  let disk : Disk := { entries := dir.entries, reads := (validate node blobDir dir).1 }
  have hnames : ∀ s ∈ there, s.key ∈ disk.names := fun s hs => by
    simpa [Disk.names] using hthere s hs
  obtain ⟨reads, heq⟩ := restoreScreenshots_present node blobDir (shot :: later) hnames
  refine ⟨later, reads, by simpa using hshot, List.filter_subset_self _, fun s hs => ?_,
    fun s hs hlacks => List.mem_filter.mpr ⟨hs, decide_eq_true hlacks⟩, ?_⟩
  · simpa using (List.mem_filter.mp hs).2
  · unfold restored
    rw [hshots]
    exact heq

/-- Where nothing is lacking, the second pass only looks. -/
theorem restored_of_lacking_nil (h : lacking dir v = []) :
    (restored node blobDir dir v).2 = .ok () := by
  refine restoreScreenshots_ok fun shot hshot hlacks => absurd ?_ hlacks
  simpa [Disk.names] using List.filter_eq_nil_iff.mp h shot hshot

/-- A second pass that fails has written nothing, if the directory is restorable. -/
theorem restored_refused (hrestorable : Restorable node blobDir dir)
    (hvalid : (validate node blobDir dir).2 = .ok v) {e : BlobMergeError}
    (h : (restored node blobDir dir v).2 = .error e) :
    (restored node blobDir dir v).1.writes = [] ∧
      (restored node blobDir dir v).1.entries = dir.entries := by
  cases hlacking : lacking dir v with
  | nil =>
    rw [restored_of_lacking_nil hlacking] at h
    cases h
  | cons shot shots =>
    obtain ⟨later, reads, hshot, -, -, hlater, heq⟩ := restored_eq node blobDir hlacking
    rw [heq] at h ⊢
    by_cases hcreatable : node.creatable shot.key = true
    · -- then all that is lacking can be created, and the pass cannot fail
      have hall := hrestorable v hvalid shot shots hlacking hcreatable
      rw [restoreScreenshots_ok fun s hs hlacks => ?_] at h
      · cases h
      · rcases List.mem_cons.mp hs with rfl | hs
        · exact hcreatable
        · exact hall s (hlater s hs hlacks)
    · unfold restoreScreenshots
      dsimp only
      split_ifs with hthere
      · exact absurd hthere hshot
      · exact ⟨rfl, rfl⟩

theorem restorable_of_refused
    (h : ∀ e, (mergeBlobs node blobDir dir).result = .error e →
      (mergeBlobs node blobDir dir).writes = [] ∧
        (mergeBlobs node blobDir dir).entries = dir.entries) :
    Restorable node blobDir dir := by
  intro v hvalid shot shots hlacking hcreatable other hother
  by_contra hno
  rw [Bool.not_eq_true] at hno
  obtain ⟨later, reads, hshot, hsub, hlacks, -, heq⟩ := restored_eq node blobDir hlacking
  -- the first screenshot is created, and the pass fails behind it
  have hfirst : restored node blobDir dir v = restoreScreenshots node blobDir later
      { entries := dir.entries ++ [(shot.key, .file (node.base64 shot.base64))]
        reads := reads ++ [join blobDir shot.key]
        writes := [join blobDir shot.key] } := by
    rw [heq, restoreScreenshots]
    dsimp only
    split_ifs with hthere
    · exact absurd hthere hshot
    · rfl
  have hkey : other.key ≠ shot.key := by
    intro hkey
    rw [hkey, hcreatable] at hno
    cases hno
  obtain ⟨e, he⟩ : ∃ e, (restored node blobDir dir v).2 = .error e := by
    rw [hfirst]
    refine restoreScreenshots_error (hsub hother) (fun hmem => ?_) hno
    simp only [Disk.names, List.map_append, List.mem_append, List.map_cons, List.map_nil,
      List.mem_singleton] at hmem
    rcases hmem with hmem | hmem
    · exact hlacks other hother hmem
    · exact hkey hmem
  rw [mergeBlobs_validated hvalid, he] at h
  obtain ⟨-, hentries⟩ := h e rfl
  have hgrows : (dir.entries ++ [(shot.key, Item.file (node.base64 shot.base64))]).length ≤
      (restored node blobDir dir v).1.entries.length := by
    rw [hfirst]
    exact restoreScreenshots_grows node blobDir later ⟨_, _, _⟩
  have hlength := congrArg List.length hentries
  rw [List.length_append, List.length_singleton] at hgrows
  dsimp only at hlength
  omega

/-- A merge is all or nothing exactly when the file system takes the names of all screenshots that
    the directory lacks, or refuses the first. -/
theorem mergeBlobs_allOrNothing_iff (node : Node K) (blobDir : String) (dir : Directory) :
    AllOrNothing node blobDir dir ↔ Restorable node blobDir dir := by
  constructor
  · intro h
    exact restorable_of_refused h.refused
  · intro h
    refine ⟨fun e he => ?_, fun _ => mergeBlobs_merges, fun _ => mergeBlobs_touched,
      fun _ => mergeBlobs_paths⟩
    cases hvalid : (validate node blobDir dir).2 with
    | error e' =>
      rw [mergeBlobs_refused hvalid]
      exact ⟨rfl, rfl⟩
    | ok v =>
      rw [mergeBlobs_validated hvalid] at he ⊢
      dsimp only at he ⊢
      cases hpass : (restored node blobDir dir v).2 with
      | ok u =>
        rw [hpass] at he
        cases he
      | error e' => exact restored_refused h hvalid hpass

/-! ### A name that no file can have -/

/-- A blob without tests, with two screenshots, of which the second has a NUL in its name. -/
def nulText : String :=
  "\x7b\"version\":1,\"duration\":0,\"suites\":[],\"tests\":[]," ++
    "\"screenshots\":\x7b\"a.png\":\"\",\"b\\u0000.png\":\"\"\x7d\x7d"

def nulJson : Json :=
  .obj [("version", .num 1), ("duration", .num 0), ("suites", .arr []), ("tests", .arr []),
    ("screenshots", .obj [("a.png", .str ""), ("b\x00.png", .str "")])]

/-- Node on that text: ASCII, the one parse that is asked for, the maximum of two zeros, and no
    file with a NUL. -/
def nulNode : Node ℕ where
  text bytes := String.ofList (bytes.map fun byte => Char.ofNat byte.toNat)
  parse text := if text = nulText then some nulJson else none
  string _ := none
  max total _ := total
  base64 _ := []
  collation name := name.length
  creatable name := !name.toList.contains '\x00'

def nulDirectory : Directory where
  entries := [("blob.jsonl", .file (nulText.toList.map fun c => UInt8.ofNat c.toNat))]
  bare := by
    intro entry hentry
    obtain rfl := List.mem_singleton.mp hentry
    decide +kernel

/-- The first screenshot is written, and then the merge is refused. -/
theorem nul_name_writes : ¬ AllOrNothing nulNode "/blobs" nulDirectory := by
  intro h
  have hwrites : (mergeBlobs nulNode "/blobs" nulDirectory).writes = ["/blobs/a.png"] := by
    decide +kernel
  have hrefused : (mergeBlobs nulNode "/blobs" nulDirectory).result.toOption.isNone = true := by
    decide +kernel
  cases hresult : (mergeBlobs nulNode "/blobs" nulDirectory).result with
  | ok merged =>
    rw [hresult] at hrefused
    cases hrefused
  | error e =>
    rw [(h.refused e hresult).1] at hwrites
    cases hwrites

end Tapsmith.Report.Untrusted
