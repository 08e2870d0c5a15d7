import Mathlib.Logic.Function.Basic
import Mathlib.Algebra.Order.Ring.Nat
import Tapsmith.Lib.Shares
import Tapsmith.Project.Config

namespace Tapsmith.Project

open Lib.Shares

/-!
# Projects — workers

`allocateBucketWorkers` gives every bucket with files at least one worker and hands out the rest
of the budget in proportion to the files: rounds that go up to each bucket's rounded share, then
one pass for what rounding has left.  A cap rescales the result in the same two steps.

* `fairShareRound_spec`, `fairShareLoop_spec` — a round raises a level, and the rounds end at the
  shares or when nothing is left;
* `leftoverPass_spec` — one pass gives away less than one for each bucket;
* `scaleToBudget_spec` — the total is the cap, or one for each bucket where that is more;
* `allocateBucketWorkers_exact` — what every bucket gets, and what the buckets get together.

Divisions are of natural numbers: the quotients of the source are exact below `2 ^ 53`.
-/

/-! ### The code -/

structure Bucket where
  signature : String
  projects : List ResolvedProject

/-- The files of the bucket's projects, counted. -/
def Bucket.files (b : Bucket) : ℕ :=
  (b.projects.map fun p => p.testFiles.length).sum

/-- The workers its projects ask for. -/
def Bucket.explicitValues (b : Bucket) : List ℕ :=
  (b.projects.filterMap ResolvedProject.workers).filter fun w => 0 < w

/-- The map from signatures to workers that is being filled in. -/
abbrev Allocation := String → Option ℕ

def Allocation.set (result : Allocation) (signature : String) (n : ℕ) : Allocation :=
  Function.update result signature (some n)

/-- A bucket in the order of its weight: its files, or its workers so far. -/
structure Ranked where
  signature : String
  weight : ℕ

/-- Largest first; equal weights keep their order. -/
def rankBy (weight : Bucket → ℕ) (buckets : List Bucket) : List Ranked :=
  (buckets.map fun b => { signature := b.signature, weight := weight b }).mergeSort
    fun a b => b.weight ≤ a.weight

/-- The variables of the loop over the fair shares. -/
structure Shares where
  result : Allocation
  remaining : ℕ
  madeProgress : Bool

/-- One bucket in a round. -/
def fairShareStep (budget totalFiles : ℕ) (s : Shares) (r : Ranked) : Shares :=
  if s.remaining = 0 then s
  else
    let fairShare := budget * r.weight / totalFiles
    let current := (s.result r.signature).getD 1
    if current < fairShare then
      { result := s.result.set r.signature (current + 1), remaining := s.remaining - 1,
        madeProgress := true }
    else s

def fairShareRound (budget totalFiles : ℕ) (ranked : List Ranked) (s : Shares) : Shares :=
  ranked.foldl (fairShareStep budget totalFiles) s

/-- One more for each, until nothing remains. -/
def leftoverPass (ranked : List Ranked) (result : Allocation) (remaining : ℕ) : Allocation × ℕ :=
  ranked.foldl
    (fun s r =>
      if s.2 = 0 then s
      else (s.1.set r.signature ((s.1 r.signature).getD 1 + 1), s.2 - 1))
    (result, remaining)

/-- Progress uses up the budget. -/
theorem fairShareStep_remaining (budget totalFiles : ℕ) (s : Shares) (r : Ranked) :
    (fairShareStep budget totalFiles s r).remaining ≤ s.remaining ∧
      ((fairShareStep budget totalFiles s r).madeProgress = true →
        s.madeProgress = true ∨
          (fairShareStep budget totalFiles s r).remaining < s.remaining) := by
  unfold fairShareStep
  split
  · exact ⟨le_rfl, .inl⟩
  · dsimp only
    split
    · exact ⟨Nat.sub_le _ _, fun _ => .inr (by dsimp only; omega)⟩
    · exact ⟨le_rfl, .inl⟩

theorem fairShareRound_remaining (budget totalFiles : ℕ) (ranked : List Ranked) (s : Shares) :
    (fairShareRound budget totalFiles ranked s).remaining ≤ s.remaining ∧
      ((fairShareRound budget totalFiles ranked s).madeProgress = true →
        s.madeProgress = true ∨
          (fairShareRound budget totalFiles ranked s).remaining < s.remaining) := by
  induction ranked generalizing s with
  | nil => exact ⟨le_rfl, .inl⟩
  | cons r ranked ih =>
    have hcons : fairShareRound budget totalFiles (r :: ranked) s =
        fairShareRound budget totalFiles ranked (fairShareStep budget totalFiles s r) := rfl
    rw [hcons]
    obtain ⟨hle, hprogress⟩ := ih (fairShareStep budget totalFiles s r)
    obtain ⟨hstep, hmade⟩ := fairShareStep_remaining budget totalFiles s r
    refine ⟨hle.trans hstep, ?_⟩
    intro h
    rcases hprogress h with h | h
    · exact (hmade h).imp id hle.trans_lt
    · exact .inr (h.trans_le hstep)

/-- `while (remaining > 0)`. -/
def fairShareLoop (budget totalFiles : ℕ) (ranked : List Ranked) (result : Allocation)
    (remaining : ℕ) : Allocation :=
  if remaining = 0 then result
  else
    if _hprogress : (fairShareRound budget totalFiles ranked
        { result, remaining, madeProgress := false }).madeProgress = true then
      fairShareLoop budget totalFiles ranked
        (fairShareRound budget totalFiles ranked
          { result, remaining, madeProgress := false }).result
        (fairShareRound budget totalFiles ranked
          { result, remaining, madeProgress := false }).remaining
    else
      (leftoverPass ranked
        (fairShareRound budget totalFiles ranked
          { result, remaining, madeProgress := false }).result
        (fairShareRound budget totalFiles ranked
          { result, remaining, madeProgress := false }).remaining).1
termination_by remaining
decreasing_by
  have h := (fairShareRound_remaining budget totalFiles ranked
    { result, remaining, madeProgress := false }).2 _hprogress
  exact h.resolve_left Bool.false_ne_true

/-- `result.set(b.signature, 1)` for each. -/
def setAllToOne (result : Allocation) (buckets : List Bucket) : Allocation :=
  buckets.foldl (fun result b => result.set b.signature 1) result

/-- The pass of `scaleToBudget` that gives each bucket its share at once. -/
def proportionalPass (effectiveCap total : ℕ) (ranked : List Ranked) (result : Allocation)
    (remaining : ℕ) : Allocation × ℕ :=
  ranked.foldl
    (fun s r =>
      if s.2 = 0 then s
      else
        let targetShare := effectiveCap * r.weight / total
        let toAdd := min s.2 (targetShare - 1)
        if 0 < toAdd then (s.1.set r.signature (1 + toAdd), s.2 - toAdd) else s)
    (result, remaining)

/-- The workers of a bucket, `?? 0`. -/
def Allocation.workersOf (result : Allocation) (b : Bucket) : ℕ :=
  (result b.signature).getD 0

/-- `scaleToBudget`.  A cap below zero comes as zero, which leaves one worker for each bucket
    just the same. -/
def scaleToBudget (result : Allocation) (cap : ℕ) (active : List Bucket) : Allocation :=
  if active = [] then result
  else
    let total := (active.map result.workersOf).sum
    if total = cap then result
    else
      let effectiveCap := max cap active.length
      let ones := setAllToOne result active
      let remaining := effectiveCap - active.length
      if remaining = 0 then ones
      else
        let ranked := rankBy result.workersOf active
        let shared := proportionalPass effectiveCap total ranked ones remaining
        (leftoverPass ranked shared.1 shared.2).1

section Allocate

variable (totalBudget : ℕ) (bucketEntries : List Bucket) (budgetCap : Option ℕ)
  (pinnedSignatures : String → Bool)

def activeBuckets : List Bucket :=
  bucketEntries.filter fun b => 0 < b.files

def pinnedBuckets : List Bucket :=
  (activeBuckets bucketEntries).filter fun b => pinnedSignatures b.signature

def scalableBuckets : List Bucket :=
  (activeBuckets bucketEntries).filter fun b => !pinnedSignatures b.signature

def explicitBuckets : List Bucket :=
  (scalableBuckets bucketEntries pinnedSignatures).filter fun b => b.explicitValues ≠ []

def implicitBuckets : List Bucket :=
  (scalableBuckets bucketEntries pinnedSignatures).filter fun b => b.explicitValues = []

/-- `budgetCap` where there is one: the cap less the pinned buckets. -/
def applyCap (result : Allocation) : Allocation :=
  match budgetCap with
  | none => result
  | some cap =>
    scaleToBudget result (cap - (pinnedBuckets bucketEntries pinnedSignatures).length)
      (scalableBuckets bucketEntries pinnedSignatures)

/-- The rounds over the implicit buckets, where there is something to hand out. -/
def shareBudget (budget : ℕ) (implicit : List Bucket) (result : Allocation) : Allocation :=
  let implicitFiles := (implicit.map Bucket.files).sum
  let remaining := budget - implicit.length
  if 0 < remaining ∧ 0 < implicitFiles then
    fairShareLoop budget implicitFiles (rankBy Bucket.files implicit) result remaining
  else result

/-- The workers of the buckets that share the budget; the others have theirs in `result`. -/
def shareImplicit (budget : ℕ) (implicit : List Bucket) (result : Allocation) : Allocation :=
  if implicit = [] then result
  else shareBudget budget implicit (setAllToOne result implicit)

def allocateBucketWorkers : Allocation :=
  let active := activeBuckets bucketEntries
  let result : Allocation := (bucketEntries.filter fun b => b.files = 0).foldl
    (fun result b => result.set b.signature 0) fun _ => none
  if active = [] then result
  else
    let pinned := pinnedBuckets bucketEntries pinnedSignatures
    let result := setAllToOne result pinned
    let scalable := scalableBuckets bucketEntries pinnedSignatures
    if scalable = [] then result
    else
      let budget := totalBudget - pinned.length
      let result := (explicitBuckets bucketEntries pinnedSignatures).foldl
        (fun result b => result.set b.signature (b.explicitValues.foldl max 0)) result
      applyCap bucketEntries budgetCap pinnedSignatures
        (shareImplicit budget (implicitBuckets bucketEntries pinnedSignatures) result)

end Allocate

/-! ### The passes -/

section Passes

variable {budget totalFiles : ℕ} {ranked : List Ranked} {result : Allocation}

@[simp] theorem set_self (signature : String) (n : ℕ) :
    result.set signature n signature = some n :=
  Function.update_self ..

theorem set_of_ne {signature other : String} (h : other ≠ signature) (n : ℕ) :
    result.set signature n other = result other :=
  Function.update_of_ne h ..

/-- The buckets of a pass have different signatures. -/
def Distinct (ranked : List Ranked) : Prop :=
  (ranked.map Ranked.signature).Nodup

theorem Distinct.tail {r : Ranked} (h : Distinct (r :: ranked)) : Distinct ranked := by
  rw [Distinct, List.map_cons, List.nodup_cons] at h
  exact h.2

theorem Distinct.ne {r q : Ranked} (h : Distinct (r :: ranked)) (hq : q ∈ ranked) :
    q.signature ≠ r.signature := by
  rw [Distinct, List.map_cons, List.nodup_cons] at h
  intro heq
  exact h.1 (heq ▸ List.mem_map_of_mem hq)

/-- A pass over `ranked` leaves the other signatures alone. -/
def Untouched (ranked : List Ranked) (result result' : Allocation) : Prop :=
  ∀ signature, signature ∉ ranked.map Ranked.signature → result' signature = result signature

theorem Untouched.refl : Untouched ranked result result :=
  fun _ _ => rfl

theorem Untouched.trans {result' result'' : Allocation} (h : Untouched ranked result result')
    (h' : Untouched ranked result' result'') : Untouched ranked result result'' :=
  fun signature hnot => (h' signature hnot).trans (h signature hnot)

theorem Untouched.cons {r : Ranked} {result' : Allocation} {n : ℕ}
    (h : Untouched ranked (result.set r.signature n) result') :
    Untouched (r :: ranked) result result' := by
  intro signature hnot
  rw [List.map_cons, List.mem_cons, not_or] at hnot
  rw [h signature hnot.2, set_of_ne hnot.1]

theorem Untouched.weaken {r : Ranked} {result' : Allocation} (h : Untouched ranked result result') :
    Untouched (r :: ranked) result result' := by
  intro signature hnot
  rw [List.map_cons, List.mem_cons, not_or] at hnot
  exact h signature hnot.2

/-- What a pass does to its first bucket stays. -/
theorem Untouched.head {r : Ranked} {result' : Allocation} (h : Untouched ranked result result')
    (hdistinct : Distinct (r :: ranked)) : result' r.signature = result r.signature := by
  apply h
  rw [Distinct, List.map_cons, List.nodup_cons] at hdistinct
  exact hdistinct.1

theorem leftoverPass_zero : leftoverPass ranked result 0 = (result, 0) := by
  unfold leftoverPass
  induction ranked with
  | nil => rfl
  | cons r ranked ih => rw [List.foldl_cons, if_pos rfl, ih]

/-- **The leftover pass.**  The first buckets get one more each, as many as there are workers
    left. -/
theorem leftoverPass_spec (hdistinct : Distinct ranked) {v : Ranked → ℕ} {m : ℕ}
    (hv : ∀ r ∈ ranked, result r.signature = some (v r)) (hm : m ≤ ranked.length) :
    ∃ pre post, ranked = pre ++ post ∧ pre.length = m ∧
      (∀ r ∈ pre, (leftoverPass ranked result m).1 r.signature = some (v r + 1)) ∧
      (∀ r ∈ post, (leftoverPass ranked result m).1 r.signature = some (v r)) ∧
      Untouched ranked result (leftoverPass ranked result m).1 := by
  induction ranked generalizing result m with
  | nil => exact ⟨[], [], rfl, (Nat.le_zero.mp hm).symm, by simp, by simp, .refl⟩
  | cons r ranked ih =>
    cases m with
    | zero =>
      rw [leftoverPass_zero]
      exact ⟨[], r :: ranked, rfl, rfl, by simp, hv, .refl⟩
    | succ m =>
      have hr := hv r List.mem_cons_self
      have hstep : leftoverPass (r :: ranked) result (m + 1) =
          leftoverPass ranked (result.set r.signature (v r + 1)) m := by
        rw [leftoverPass, List.foldl_cons, if_neg (Nat.succ_ne_zero m)]
        dsimp only
        rw [hr]
        rfl
      rw [hstep]
      have hrest : ∀ q ∈ ranked, result.set r.signature (v r + 1) q.signature = some (v q) := by
        intro q hq
        rw [set_of_ne (hdistinct.ne hq)]
        exact hv q (List.mem_cons_of_mem _ hq)
      obtain ⟨pre, post, rfl, hlen, hpre, hpost, hout⟩ :=
        ih hdistinct.tail hrest (Nat.le_of_succ_le_succ hm)
      refine ⟨r :: pre, post, rfl, by rw [List.length_cons, hlen], ?_, hpost, hout.cons⟩
      intro q hq
      rcases List.mem_cons.mp hq with rfl | hq
      · rw [hout.head hdistinct, set_self]
      · exact hpre q hq

/-- The rounded share of a bucket. -/
def fairShare (budget totalFiles : ℕ) (r : Ranked) : ℕ :=
  budget * r.weight / totalFiles

/-- The workers a weight comes to in `k - 1` rounds. -/
def levelOf (budget totalFiles k weight : ℕ) : ℕ :=
  min k (max 1 (budget * weight / totalFiles))

/-- The workers of a bucket after `k - 1` rounds. -/
def level (budget totalFiles k : ℕ) (r : Ranked) : ℕ :=
  levelOf budget totalFiles k r.weight

theorem fairShareRound_zero {s : Shares} (h : s.remaining = 0) :
    fairShareRound budget totalFiles ranked s = s := by
  unfold fairShareRound
  induction ranked with
  | nil => rfl
  | cons r ranked ih => rw [List.foldl_cons, fairShareStep, if_pos h, ih]

/-- Progress is not taken back. -/
theorem fairShareRound_made (budget totalFiles : ℕ) (ranked : List Ranked) {s : Shares}
    (h : s.madeProgress = true) :
    (fairShareRound budget totalFiles ranked s).madeProgress = true := by
  unfold fairShareRound
  induction ranked generalizing s with
  | nil => exact h
  | cons r ranked ih =>
    rw [List.foldl_cons]
    apply ih
    unfold fairShareStep
    split
    · exact h
    · dsimp only
      split
      · rfl
      · exact h

/-- One bucket in a round: it goes up a level, and where it does not there is no higher one. -/
theorem fairShareStep_level {s : Shares} {r : Ranked} {k : ℕ} (hk : 1 ≤ k)
    (hrem : s.remaining ≠ 0) (hr : s.result r.signature = some (level budget totalFiles k r)) :
    (fairShareStep budget totalFiles s r).result =
        s.result.set r.signature (level budget totalFiles (k + 1) r) ∧
      (fairShareStep budget totalFiles s r).remaining + level budget totalFiles (k + 1) r =
        s.remaining + level budget totalFiles k r ∧
      ((fairShareStep budget totalFiles s r).madeProgress = false →
        s.madeProgress = false ∧ (fairShareStep budget totalFiles s r).remaining = s.remaining ∧
          fairShare budget totalFiles r ≤ k) := by
  unfold fairShareStep
  rw [if_neg hrem, hr, Option.getD_some]
  dsimp only
  rw [← fairShare]
  by_cases hlt : level budget totalFiles k r < fairShare budget totalFiles r
  · have hnext : level budget totalFiles (k + 1) r = level budget totalFiles k r + 1 := by
      unfold level levelOf at hlt ⊢
      unfold fairShare at hlt
      omega
    rw [if_pos hlt, hnext]
    exact ⟨rfl, by dsimp only; omega, fun h => by cases h⟩
  · have hnext : level budget totalFiles (k + 1) r = level budget totalFiles k r := by
      unfold level levelOf at hlt ⊢
      unfold fairShare at hlt
      omega
    rw [if_neg hlt, hnext]
    refine ⟨?_, rfl, ?_⟩
    · rw [Allocation.set, ← hr, Function.update_eq_self]
    · intro hmade
      refine ⟨hmade, rfl, ?_⟩
      unfold level levelOf at hlt
      unfold fairShare at hlt ⊢
      omega

/-- **A round.**  The buckets go up a level one after the other, as long as workers are left;
    a round without progress has found every bucket at its share. -/
theorem fairShareRound_spec (hdistinct : Distinct ranked) {s : Shares} {k : ℕ} (hk : 1 ≤ k)
    (hv : ∀ r ∈ ranked, s.result r.signature = some (level budget totalFiles k r)) :
    ∃ pre post, ranked = pre ++ post ∧
      (∀ r ∈ pre, (fairShareRound budget totalFiles ranked s).result r.signature =
        some (level budget totalFiles (k + 1) r)) ∧
      (∀ r ∈ post, (fairShareRound budget totalFiles ranked s).result r.signature =
        some (level budget totalFiles k r)) ∧
      (post ≠ [] → (fairShareRound budget totalFiles ranked s).remaining = 0) ∧
      (fairShareRound budget totalFiles ranked s).remaining +
        (pre.map (level budget totalFiles (k + 1))).sum =
          s.remaining + (pre.map (level budget totalFiles k)).sum ∧
      ((fairShareRound budget totalFiles ranked s).madeProgress = false →
        (fairShareRound budget totalFiles ranked s).remaining = s.remaining ∧
          ∀ r ∈ pre, fairShare budget totalFiles r ≤ k) ∧
      Untouched ranked s.result (fairShareRound budget totalFiles ranked s).result := by
  induction ranked generalizing s with
  | nil => exact ⟨[], [], rfl, by simp, by simp, by simp, rfl, fun _ => ⟨rfl, by simp⟩, .refl⟩
  | cons r ranked ih =>
    by_cases hrem : s.remaining = 0
    · rw [fairShareRound_zero hrem]
      exact ⟨[], r :: ranked, rfl, by simp, hv, fun _ => hrem, rfl, fun _ => ⟨rfl, by simp⟩, .refl⟩
    · obtain ⟨hresult, hsum, hstill⟩ := fairShareStep_level hk hrem (hv r List.mem_cons_self)
      have hcons : fairShareRound budget totalFiles (r :: ranked) s =
          fairShareRound budget totalFiles ranked (fairShareStep budget totalFiles s r) := rfl
      rw [hcons]
      obtain ⟨pre, post, rfl, hpre, hpost, hend, htotal, hnone, hout⟩ := ih hdistinct.tail
        (s := fairShareStep budget totalFiles s r) (fun q hq => by
          rw [hresult, set_of_ne (hdistinct.ne hq)]
          exact hv q (List.mem_cons_of_mem _ hq))
      refine ⟨r :: pre, post, rfl, ?_, hpost, hend, ?_, ?_, ?_⟩
      · intro q hq
        rcases List.mem_cons.mp hq with rfl | hq
        · rw [hout.head hdistinct, hresult, set_self]
        · exact hpre q hq
      · rw [List.map_cons, List.map_cons, List.sum_cons, List.sum_cons]
        omega
      · intro hmade
        obtain ⟨hsame, hall⟩ := hnone hmade
        obtain ⟨-, hstep, hshare⟩ := hstill (by
          by_contra hprogress
          have := fairShareRound_made budget totalFiles (pre ++ post)
            (Bool.eq_true_of_not_eq_false hprogress)
          rw [this] at hmade
          cases hmade)
        refine ⟨hsame.trans hstep, ?_⟩
        intro q hq
        rcases List.mem_cons.mp hq with rfl | hq
        · exact hshare
        · exact hall q hq
      · rw [hresult] at hout
        exact hout.cons

/-- The workers of the ranked buckets together. -/
def sumOver (ranked : List Ranked) (result : Allocation) : ℕ :=
  (ranked.map fun r => (result r.signature).getD 0).sum

theorem sumOver_of {v : Ranked → ℕ} (hv : ∀ r ∈ ranked, result r.signature = some (v r)) :
    sumOver ranked result = (ranked.map v).sum := by
  rw [sumOver]
  congr 1
  apply List.map_congr_left
  intro r hr
  rw [hv r hr, Option.getD_some]

theorem sumOver_append (pre post : List Ranked) :
    sumOver (pre ++ post) result = sumOver pre result + sumOver post result := by
  rw [sumOver, List.map_append, List.sum_append]
  rfl

/-- What a pass over the buckets is to achieve: each has at least one worker, a bucket before
    another one has at least as many, and together they have `total`. -/
structure Shared (ranked : List Ranked) (total : ℕ) (result : Allocation) : Prop where
  pos : ∀ r ∈ ranked, ∃ n, result r.signature = some n ∧ 1 ≤ n
  sorted : ranked.Pairwise fun r q =>
    (result q.signature).getD 0 ≤ (result r.signature).getD 0
  sum : sumOver ranked result = total

/-- Where the front has one level and the rest another that is no higher, more weight means at
    least as many workers. -/
theorem shared_of_split {pre post : List Ranked} {v w : ℕ → ℕ} (hdesc : (pre ++ post).Pairwise
      fun r q => q.weight ≤ r.weight)
    (hpre : ∀ r ∈ pre, result r.signature = some (v r.weight))
    (hpost : ∀ r ∈ post, result r.signature = some (w r.weight))
    (hv : Monotone v) (hw : Monotone w) (hwv : ∀ n, w n ≤ v n) (hpos : ∀ n, 1 ≤ w n) :
    Shared (pre ++ post)
      ((pre.map fun r => v r.weight).sum + (post.map fun r => w r.weight).sum) result := by
  obtain ⟨hdpre, hdpost, hcross⟩ := List.pairwise_append.mp hdesc
  refine ⟨?_, ?_, ?_⟩
  · intro r hr
    rcases List.mem_append.mp hr with hr | hr
    · exact ⟨_, hpre r hr, (hpos _).trans (hwv _)⟩
    · exact ⟨_, hpost r hr, hpos _⟩
  · rw [List.pairwise_append]
    refine ⟨hdpre.imp_of_mem ?_, hdpost.imp_of_mem ?_, ?_⟩
    · intro r q hr hq hle
      rw [hpre r hr, hpre q hq]
      exact hv hle
    · intro r q hr hq hle
      rw [hpost r hr, hpost q hq]
      exact hw hle
    · intro r hr q hq
      rw [hpre r hr, hpost q hq]
      exact (hw (hcross r hr q hq)).trans (hwv _)
  · rw [sumOver_append, sumOver_of hpre, sumOver_of hpost]

theorem levelOf_mono (k : ℕ) : Monotone (levelOf budget totalFiles k) := by
  intro n m hnm
  unfold levelOf
  have := Nat.div_le_div_right (c := totalFiles) (Nat.mul_le_mul_left budget hnm)
  omega

/-- **The rounds.**  Starting from one level, with weights that add up to the files, the budget
    is handed out exactly. -/
theorem fairShareLoop_spec (hdistinct : Distinct ranked)
    (hdesc : ranked.Pairwise fun r q => q.weight ≤ r.weight)
    (hfiles : (ranked.map Ranked.weight).sum = totalFiles) (hpos : 0 < totalFiles) {k total m : ℕ}
    (hk : 1 ≤ k) (hv : ∀ r ∈ ranked, result r.signature = some (levelOf budget totalFiles k r.weight))
    (htotal : (ranked.map fun r => levelOf budget totalFiles k r.weight).sum + m = total)
    (hbudget : m ≠ 0 → total = budget) :
    Shared ranked total (fairShareLoop budget totalFiles ranked result m) ∧
      Untouched ranked result (fairShareLoop budget totalFiles ranked result m) := by
  induction result, m using fairShareLoop.induct budget totalFiles ranked generalizing k with
  | case1 result =>
    rw [fairShareLoop, if_pos rfl]
    have hshared := shared_of_split (by simpa using hdesc : (ranked ++ []).Pairwise _) hv
      (fun _ hr => absurd hr List.not_mem_nil) (levelOf_mono k) (levelOf_mono k) (fun _ => le_rfl)
      (fun n => by unfold levelOf; omega)
    rw [List.append_nil, List.map_nil, List.sum_nil] at hshared
    rw [← htotal]
    exact ⟨hshared, .refl⟩
  | case2 result m hm hprogress ih =>
    rw [fairShareLoop, if_neg hm, dif_pos hprogress]
    obtain ⟨pre, post, hsplit, hpre, hpost, hend, hsum, -, hout⟩ :=
      fairShareRound_spec hdistinct (s := { result, remaining := m, madeProgress := false }) hk hv
    subst hsplit
    generalize fairShareRound budget totalFiles (pre ++ post)
      { result, remaining := m, madeProgress := false } = s at *
    dsimp only at hsum hout
    by_cases hnil : post = []
    · -- everyone went up a level
      subst hnil
      rw [List.append_nil] at *
      have hnext := ih (k := k + 1) (Nat.le_add_left 1 k) hpre
        (by unfold level at hsum; omega) (fun _ => hbudget hm)
      exact ⟨hnext.1, hout.trans hnext.2⟩
    · -- the workers ran out on the way
      rw [hend hnil, fairShareLoop, if_pos rfl]
      have hshared := shared_of_split hdesc hpre hpost (levelOf_mono (k + 1)) (levelOf_mono k)
        (fun n => by unfold levelOf; omega) (fun n => by unfold levelOf; omega)
      have htotal' : (pre.map fun r => levelOf budget totalFiles (k + 1) r.weight).sum +
          (post.map fun r => levelOf budget totalFiles k r.weight).sum = total := by
        rw [hend hnil] at hsum
        rw [List.map_append, List.sum_append] at htotal
        unfold level at hsum
        omega
      rw [htotal'] at hshared
      exact ⟨hshared, hout⟩
  | case3 result m hm hprogress =>
    rw [fairShareLoop, if_neg hm, dif_neg hprogress]
    obtain ⟨pre, post, hsplit, hpre, -, hend, hsum, hnone, hout⟩ :=
      fairShareRound_spec hdistinct (s := { result, remaining := m, madeProgress := false }) hk hv
    obtain ⟨hsame, hshares⟩ := hnone (Bool.eq_false_iff.mpr hprogress)
    obtain rfl : post = [] := by
      by_contra hpost
      exact hm (hsame.symm.trans (hend hpost))
    rw [List.append_nil] at hsplit
    subst hsplit
    generalize fairShareRound budget totalFiles ranked
      { result, remaining := m, madeProgress := false } = s at *
    dsimp only at hsum hout hsame
    rw [hsame] at hsum ⊢
    have hlevels : (ranked.map (level budget totalFiles (k + 1))).sum + m = budget := by
      have := hbudget hm
      unfold level at hsum ⊢
      omega
    -- every bucket has its share, so rounding has left less than one for each
    have hleft : m < ranked.length := by
      have hfloor := lt_sum_floor_add_length budget (ranked.map Ranked.weight)
        (by rw [hfiles]; exact hpos)
      rw [hfiles, List.map_map, List.length_map] at hfloor
      have hle : (ranked.map ((fun w => budget * w / totalFiles) ∘ Ranked.weight)).sum ≤
          (ranked.map (level budget totalFiles (k + 1))).sum := by
        apply List.sum_le_sum
        intro r hr
        have := hshares r hr
        unfold fairShare at this
        unfold level levelOf
        dsimp only [Function.comp]
        omega
      omega
    obtain ⟨first, rest, rfl, hlen, hfirst, hrest, hout'⟩ :=
      leftoverPass_spec hdistinct hpre hleft.le
    have hshared := shared_of_split (w := levelOf budget totalFiles (k + 1))
      (v := fun n => levelOf budget totalFiles (k + 1) n + 1) hdesc hfirst hrest
      (fun n n' hn => Nat.succ_le_succ (levelOf_mono (k + 1) hn)) (levelOf_mono (k + 1))
      (fun n => Nat.le_succ _) (fun n => by unfold levelOf; omega)
    have htotal' : (first.map fun r => levelOf budget totalFiles (k + 1) r.weight + 1).sum +
        (rest.map fun r => levelOf budget totalFiles (k + 1) r.weight).sum = total := by
      have hone : (first.map fun _ => 1).sum = m := by
        rw [sum_ones, hlen]
      have := hbudget hm
      rw [List.map_append, List.sum_append] at hlevels
      unfold level at hlevels
      rw [List.sum_map_add, hone]
      omega
    rw [htotal'] at hshared
    exact ⟨hshared, hout.trans hout'⟩

theorem proportionalPass_zero {effectiveCap total : ℕ} :
    proportionalPass effectiveCap total ranked result 0 = (result, 0) := by
  unfold proportionalPass
  induction ranked with
  | nil => rfl
  | cons r ranked ih => rw [List.foldl_cons, if_pos rfl, ih]

/-- **The proportional pass.**  It gives away what it takes off, and where something is left every
    bucket has its share. -/
theorem proportionalPass_spec (effectiveCap total m : ℕ) (hdistinct : Distinct ranked)
    (hv : ∀ r ∈ ranked, result r.signature = some 1) :
    (∀ r ∈ ranked, ∃ n, (proportionalPass effectiveCap total ranked result m).1 r.signature =
      some n ∧ 1 ≤ n) ∧
    sumOver ranked (proportionalPass effectiveCap total ranked result m).1 +
      (proportionalPass effectiveCap total ranked result m).2 = ranked.length + m ∧
    ((proportionalPass effectiveCap total ranked result m).2 ≠ 0 → ∀ r ∈ ranked,
      (proportionalPass effectiveCap total ranked result m).1 r.signature =
        some (max 1 (effectiveCap * r.weight / total))) ∧
    Untouched ranked result (proportionalPass effectiveCap total ranked result m).1 := by
  induction ranked generalizing result m with
  | nil => exact ⟨by simp, by simp [sumOver, proportionalPass], by simp, .refl⟩
  | cons r ranked ih =>
    by_cases hm : m = 0
    · subst hm
      rw [proportionalPass_zero]
      refine ⟨fun q hq => ⟨1, hv q hq, le_rfl⟩, ?_, fun h => absurd rfl h, .refl⟩
      rw [sumOver_of (v := fun _ => 1) hv, sum_ones, Nat.add_zero]
    · have hr := hv r List.mem_cons_self
      have hstep : proportionalPass effectiveCap total (r :: ranked) result m =
          proportionalPass effectiveCap total ranked
            (result.set r.signature (1 + min m (effectiveCap * r.weight / total - 1)))
            (m - min m (effectiveCap * r.weight / total - 1)) := by
        rw [proportionalPass, List.foldl_cons, if_neg hm]
        dsimp only
        by_cases hadd : 0 < min m (effectiveCap * r.weight / total - 1)
        · rw [if_pos hadd]
          rfl
        · rw [if_neg hadd, Nat.eq_zero_of_not_pos hadd, Allocation.set, ← hr,
            Function.update_eq_self]
          rfl
      rw [hstep]
      generalize hadd : min m (effectiveCap * r.weight / total - 1) = toAdd
      have hrest : ∀ q ∈ ranked, result.set r.signature (1 + toAdd) q.signature = some 1 := by
        intro q hq
        rw [set_of_ne (hdistinct.ne hq)]
        exact hv q (List.mem_cons_of_mem _ hq)
      obtain ⟨hpos, hsum, hleft, hout⟩ := ih (m := m - toAdd) hdistinct.tail hrest
      have hhead := hout.head hdistinct
      rw [set_self] at hhead
      refine ⟨?_, ?_, ?_, hout.cons⟩
      · intro q hq
        rcases List.mem_cons.mp hq with rfl | hq
        · exact ⟨1 + toAdd, hhead, Nat.le_add_right 1 toAdd⟩
        · exact hpos q hq
      · rw [sumOver, List.map_cons, List.sum_cons, ← sumOver, hhead, Option.getD_some,
          List.length_cons]
        omega
      · intro hne q hq
        rcases List.mem_cons.mp hq with rfl | hq
        · have hsome : m - toAdd ≠ 0 := by
            intro hzero
            rw [hzero, proportionalPass_zero] at hne
            exact hne rfl
          rw [hhead]
          congr 1
          omega
        · exact hleft hne q hq

end Passes

/-! ### Buckets in order -/

section Rank

variable {weight : Bucket → ℕ} {buckets : List Bucket} {result : Allocation}

theorem rankBy_perm (weight : Bucket → ℕ) (buckets : List Bucket) : (rankBy weight buckets).Perm
    (buckets.map fun b => { signature := b.signature, weight := weight b }) :=
  List.mergeSort_perm _ _

theorem rankBy_desc (weight : Bucket → ℕ) (buckets : List Bucket) :
    (rankBy weight buckets).Pairwise fun r q => q.weight ≤ r.weight := by
  have hsorted : (rankBy weight buckets).Pairwise fun r q => decide (q.weight ≤ r.weight) := by
    apply List.pairwise_mergeSort
    · intro a b c hab hbc
      exact decide_eq_true ((of_decide_eq_true hbc).trans (of_decide_eq_true hab))
    · intro a b
      rw [Bool.or_eq_true, decide_eq_true_iff, decide_eq_true_iff]
      exact Nat.le_total _ _
  exact hsorted.imp fun h => of_decide_eq_true h

theorem mem_rankBy {r : Ranked} :
    r ∈ rankBy weight buckets ↔
      ∃ b ∈ buckets, { signature := b.signature, weight := weight b } = r := by
  rw [(rankBy_perm weight buckets).mem_iff, List.mem_map]

theorem rankBy_signatures : ((rankBy weight buckets).map Ranked.signature).Perm
    (buckets.map Bucket.signature) := by
  have hperm := (rankBy_perm weight buckets).map Ranked.signature
  rwa [List.map_map] at hperm

theorem rankBy_distinct (h : (buckets.map Bucket.signature).Nodup) :
    Distinct (rankBy weight buckets) :=
  rankBy_signatures.nodup_iff.mpr h

theorem rankBy_length : (rankBy weight buckets).length = buckets.length := by
  rw [(rankBy_perm weight buckets).length_eq, List.length_map]

theorem rankBy_weights : ((rankBy weight buckets).map Ranked.weight).sum =
    (buckets.map weight).sum := by
  have hperm := (rankBy_perm weight buckets).map Ranked.weight
  rw [List.map_map] at hperm
  exact hperm.sum_eq

theorem sumOver_rankBy (weight : Bucket → ℕ) (buckets : List Bucket) (result : Allocation) :
    sumOver (rankBy weight buckets) result = (buckets.map result.workersOf).sum := by
  have hperm := (rankBy_perm weight buckets).map
    fun r => (result r.signature).getD 0
  rw [List.map_map] at hperm
  exact hperm.sum_eq

/-- Setting the workers of every bucket of a list. -/
theorem foldl_set_of_not_mem {f : Bucket → ℕ} {signature : String}
    (h : signature ∉ buckets.map Bucket.signature) :
    buckets.foldl (fun result b => result.set b.signature (f b)) result signature =
      result signature := by
  induction buckets generalizing result with
  | nil => rfl
  | cons b buckets ih =>
    rw [List.map_cons, List.mem_cons, not_or] at h
    rw [List.foldl_cons, ih h.2, set_of_ne h.1]

theorem foldl_set_of_mem {f : Bucket → ℕ} (h : (buckets.map Bucket.signature).Nodup) {b : Bucket}
    (hb : b ∈ buckets) :
    buckets.foldl (fun result b => result.set b.signature (f b)) result b.signature =
      some (f b) := by
  induction buckets generalizing result with
  | nil => exact absurd hb List.not_mem_nil
  | cons c buckets ih =>
    rw [List.map_cons, List.nodup_cons] at h
    rw [List.foldl_cons]
    rcases List.mem_cons.mp hb with rfl | hb
    · rw [foldl_set_of_not_mem h.1, set_self]
    · exact ih h.2 hb

/-- A step over some buckets leaves the other signatures alone. -/
def LeavesOthers (buckets : List Bucket) (result result' : Allocation) : Prop :=
  ∀ signature, signature ∉ buckets.map Bucket.signature → result' signature = result signature

theorem leavesOthers_foldl_set (f : Bucket → ℕ) : LeavesOthers buckets result
    (buckets.foldl (fun result b => result.set b.signature (f b)) result) :=
  fun _ h => foldl_set_of_not_mem h

theorem LeavesOthers.trans {result' result'' : Allocation} (h : LeavesOthers buckets result result')
    (h' : LeavesOthers buckets result' result'') : LeavesOthers buckets result result'' :=
  fun signature hnot => (h' signature hnot).trans (h signature hnot)

theorem leavesOthers_of_untouched {result' : Allocation}
    (h : Untouched (rankBy weight buckets) result result') :
    LeavesOthers buckets result result' := by
  intro signature hnot
  apply h
  rwa [rankBy_signatures.mem_iff]

/-- Each bucket of the list has at least one worker. -/
def Staffed (buckets : List Bucket) (result : Allocation) : Prop :=
  ∀ b ∈ buckets, ∃ n, result b.signature = some n ∧ 1 ≤ n

theorem staffed_of_ranked (weight : Bucket → ℕ)
    (h : ∀ r ∈ rankBy weight buckets, ∃ n, result r.signature = some n ∧ 1 ≤ n) :
    Staffed buckets result :=
  fun b hb => h _ (mem_rankBy.mpr ⟨b, hb, rfl⟩)

/-- Buckets with a worker each have at least as many workers as there are buckets. -/
theorem Staffed.length_le (h : Staffed buckets result) :
    buckets.length ≤ (buckets.map result.workersOf).sum := by
  have hones : (buckets.map fun _ => 1).sum ≤ (buckets.map result.workersOf).sum := by
    apply List.sum_le_sum
    intro b hb
    obtain ⟨n, hn, hpos⟩ := h b hb
    rw [Allocation.workersOf, hn]
    exact hpos
  rwa [sum_ones] at hones

/-- **Scaling.**  The total becomes the cap, or one for each bucket where that is more. -/
theorem scaleToBudget_spec (cap : ℕ) (hdistinct : (buckets.map Bucket.signature).Nodup)
    (hne : buckets ≠ []) (h : Staffed buckets result) :
    Staffed buckets (scaleToBudget result cap buckets) ∧
      (buckets.map (scaleToBudget result cap buckets).workersOf).sum = max cap buckets.length ∧
      LeavesOthers buckets result (scaleToBudget result cap buckets) := by
  have hlen := h.length_le
  have hpos : 0 < buckets.length := List.length_pos_of_ne_nil hne
  unfold scaleToBudget
  rw [if_neg hne]
  dsimp only
  by_cases htotal : (buckets.map result.workersOf).sum = cap
  · rw [if_pos htotal]
    exact ⟨h, by omega, fun _ _ => rfl⟩
  rw [if_neg htotal]
  have hones : ∀ b ∈ buckets, setAllToOne result buckets b.signature = some 1 :=
    fun b hb => foldl_set_of_mem (f := fun _ => 1) hdistinct hb
  have hothers : LeavesOthers buckets result (setAllToOne result buckets) :=
    leavesOthers_foldl_set fun _ => 1
  generalize setAllToOne result buckets = ones at hones hothers ⊢
  by_cases hzero : max cap buckets.length - buckets.length = 0
  · rw [if_pos hzero]
    refine ⟨fun b hb => ⟨1, hones b hb, le_rfl⟩, ?_, hothers⟩
    have hall : buckets.map ones.workersOf = buckets.map fun _ => 1 := by
      apply List.map_congr_left
      intro b hb
      rw [Allocation.workersOf, hones b hb, Option.getD_some]
    rw [hall, sum_ones]
    omega
  rw [if_neg hzero]
  have hranked : ∀ r ∈ rankBy result.workersOf buckets, ones r.signature = some 1 := by
    intro r hr
    obtain ⟨b, hb, rfl⟩ := mem_rankBy.mp hr
    exact hones b hb
  obtain ⟨hstaffed, hsum, hshare, hout⟩ := proportionalPass_spec
    (max cap buckets.length) (buckets.map result.workersOf).sum
    (max cap buckets.length - buckets.length) (rankBy_distinct hdistinct) hranked
  generalize proportionalPass (max cap buckets.length) (buckets.map result.workersOf).sum
    (rankBy result.workersOf buckets) ones (max cap buckets.length - buckets.length) = shared at *
  rw [rankBy_length] at hsum
  -- where something is left every bucket has its share, so it is less than one for each
  have hleft : shared.2 ≤ (rankBy result.workersOf buckets).length := by
    by_cases hnone : shared.2 = 0
    · rw [hnone]
      exact Nat.zero_le _
    have hfloor := lt_sum_floor_add_length (max cap buckets.length)
      ((rankBy result.workersOf buckets).map Ranked.weight) (by
        rw [rankBy_weights]
        omega)
    rw [rankBy_weights, List.map_map, List.length_map, rankBy_length] at hfloor
    have hle : ((rankBy result.workersOf buckets).map
        ((fun w => max cap buckets.length * w / (buckets.map result.workersOf).sum) ∘
          Ranked.weight)).sum ≤ sumOver (rankBy result.workersOf buckets) shared.1 := by
      rw [sumOver_of (hshare hnone)]
      apply List.sum_le_sum
      intro r _
      exact le_max_right _ _
    rw [rankBy_length]
    omega
  have hvalues : ∀ r ∈ rankBy result.workersOf buckets,
      shared.1 r.signature = some ((shared.1 r.signature).getD 0) := by
    intro r hr
    obtain ⟨n, hn, -⟩ := hstaffed r hr
    rw [hn, Option.getD_some]
  obtain ⟨pre, post, hsplit, hprelen, hpre, hpost, hout'⟩ :=
    leftoverPass_spec (rankBy_distinct hdistinct) hvalues hleft
  refine ⟨?_, ?_, hothers.trans
    (leavesOthers_of_untouched (hout.trans hout'))⟩
  · refine staffed_of_ranked result.workersOf ?_
    intro r hr
    obtain ⟨n, hn, hn1⟩ := hstaffed r hr
    rw [hsplit] at hr
    rcases List.mem_append.mp hr with hr | hr
    · refine ⟨_, hpre r hr, ?_⟩
      omega
    · refine ⟨_, hpost r hr, ?_⟩
      rw [hn]
      exact hn1
  · rw [← sumOver_rankBy result.workersOf]
    have hbefore : sumOver (rankBy result.workersOf buckets) shared.1 =
        (pre.map fun r => (shared.1 r.signature).getD 0).sum +
          (post.map fun r => (shared.1 r.signature).getD 0).sum := by
      rw [hsplit, sumOver_append]
      rfl
    generalize leftoverPass (rankBy result.workersOf buckets) shared.1 shared.2 = final at *
    rw [hsplit, sumOver_append, sumOver_of hpre, sumOver_of hpost, List.sum_map_add, sum_ones,
      hprelen]
    omega

/-- **Sharing.**  The budget goes to the buckets exactly, or they get one worker each where it is
    less than that. -/
theorem shareImplicit_spec (budget : ℕ) (result : Allocation)
    (hdistinct : (buckets.map Bucket.signature).Nodup)
    (hne : buckets ≠ []) (hfiles : ∀ b ∈ buckets, 0 < b.files) :
    Shared (rankBy Bucket.files buckets) (max budget buckets.length)
        (shareImplicit budget buckets result) ∧
      LeavesOthers buckets result (shareImplicit budget buckets result) := by
  have hpos : 0 < (buckets.map Bucket.files).sum := by
    obtain ⟨b, hb⟩ := List.exists_mem_of_ne_nil _ hne
    exact (hfiles b hb).trans_le (List.single_le_sum (fun _ _ => Nat.zero_le _) _
      (List.mem_map_of_mem hb))
  have hloop : shareImplicit budget buckets result =
      fairShareLoop budget (buckets.map Bucket.files).sum (rankBy Bucket.files buckets)
        (setAllToOne result buckets) (budget - buckets.length) := by
    rw [shareImplicit, if_neg hne, shareBudget]
    by_cases hrem : 0 < budget - buckets.length
    · rw [if_pos ⟨hrem, hpos⟩]
    · rw [if_neg fun h => hrem h.1, Nat.eq_zero_of_not_pos hrem, fairShareLoop, if_pos rfl]
  have hone : ∀ n, levelOf budget (buckets.map Bucket.files).sum 1 n = 1 := by
    intro n
    unfold levelOf
    omega
  have hones : ∀ r ∈ rankBy Bucket.files buckets, setAllToOne result buckets r.signature =
      some (levelOf budget (buckets.map Bucket.files).sum 1 r.weight) := by
    intro r hr
    obtain ⟨b, hb, rfl⟩ := mem_rankBy.mp hr
    rw [hone]
    exact foldl_set_of_mem (f := fun _ => 1) hdistinct hb
  have htotal : ((rankBy Bucket.files buckets).map fun r =>
      levelOf budget (buckets.map Bucket.files).sum 1 r.weight).sum +
        (budget - buckets.length) = max budget buckets.length := by
    simp only [hone]
    rw [sum_ones, rankBy_length]
    omega
  rw [hloop]
  obtain ⟨hshared, hout⟩ := fairShareLoop_spec (rankBy_distinct hdistinct) (rankBy_desc _ _)
    rankBy_weights hpos le_rfl hones htotal (fun hrem => by omega)
  exact ⟨hshared, LeavesOthers.trans (leavesOthers_foldl_set fun _ => 1)
    (leavesOthers_of_untouched hout)⟩

/-- More files, at least as many workers. -/
theorem Shared.mono {total : ℕ} (h : Shared (rankBy weight buckets) total result) {b c : Bucket}
    (hb : b ∈ buckets) (hc : c ∈ buckets) (hlt : weight c < weight b) :
    result.workersOf c ≤ result.workersOf b := by
  have hrb : { signature := b.signature, weight := weight b } ∈ rankBy weight buckets :=
    mem_rankBy.mpr ⟨b, hb, rfl⟩
  have hrc : { signature := c.signature, weight := weight c } ∈ rankBy weight buckets :=
    mem_rankBy.mpr ⟨c, hc, rfl⟩
  obtain ⟨pre, post, hsplit⟩ := List.append_of_mem hrb
  have hdesc := rankBy_desc weight buckets
  have hsorted := h.sorted
  rw [hsplit] at hrc hdesc hsorted
  rcases List.mem_append.mp hrc with hpre | hpost
  · -- before `b` there is nothing of less weight
    have hle := (List.pairwise_append.mp hdesc).2.2 _ hpre _ List.mem_cons_self
    exact absurd hle (not_le.mpr hlt)
  · rcases List.mem_cons.mp hpost with heq | hpost
    · rw [Ranked.mk.injEq] at heq
      omega
    · exact (List.pairwise_cons.mp (List.pairwise_append.mp hsorted).2.1).1 _ hpost

end Rank

/-! ### The whole allocation -/

section Whole

variable {totalBudget : ℕ} {bucketEntries : List Bucket} {budgetCap : Option ℕ}
  {pinnedSignatures : String → Bool}

/-- What every bucket gets, and what they get together.  Shares of the budget go to the scalable
    buckets: those with files that pin no device. -/
structure AllocationExact (totalBudget : ℕ) (bucketEntries : List Bucket) (budgetCap : Option ℕ)
    (pinnedSignatures : String → Bool) (result : Allocation) : Prop where
  inactive : ∀ b ∈ bucketEntries, b.files = 0 → result b.signature = some 0
  pinned : ∀ b ∈ bucketEntries, 0 < b.files → pinnedSignatures b.signature = true →
    result b.signature = some 1
  active : ∀ b ∈ bucketEntries, 0 < b.files → ∃ n, result b.signature = some n ∧ 1 ≤ n
  capped : ∀ cap, budgetCap = some cap → scalableBuckets bucketEntries pinnedSignatures ≠ [] →
    (bucketEntries.map result.workersOf).sum =
      (pinnedBuckets bucketEntries pinnedSignatures).length +
        max (cap - (pinnedBuckets bucketEntries pinnedSignatures).length)
          (scalableBuckets bucketEntries pinnedSignatures).length
  uncapped : budgetCap = none → scalableBuckets bucketEntries pinnedSignatures ≠ [] →
    (∀ b ∈ bucketEntries, b.explicitValues = []) →
    ((scalableBuckets bucketEntries pinnedSignatures).map result.workersOf).sum =
      max (totalBudget - (pinnedBuckets bucketEntries pinnedSignatures).length)
        (scalableBuckets bucketEntries pinnedSignatures).length
  monotone : budgetCap = none → (∀ b ∈ bucketEntries, b.explicitValues = []) →
    ∀ b ∈ scalableBuckets bucketEntries pinnedSignatures,
      ∀ c ∈ scalableBuckets bucketEntries pinnedSignatures, c.files < b.files →
        result.workersOf c ≤ result.workersOf b

/-- A bucket outside a part of the list has a signature outside it. -/
theorem signature_not_mem {part : List Bucket}
    (hdistinct : (bucketEntries.map Bucket.signature).Nodup) (hpart : part ⊆ bucketEntries)
    {b : Bucket} (hb : b ∈ bucketEntries) (hnot : b ∉ part) :
    b.signature ∉ part.map Bucket.signature := by
  intro hmem
  obtain ⟨c, hc, hsig⟩ := List.mem_map.mp hmem
  exact hnot (List.inj_on_of_nodup_map hdistinct (hpart hc) hb hsig ▸ hc)

theorem mem_pinnedBuckets {b : Bucket} : b ∈ pinnedBuckets bucketEntries pinnedSignatures ↔
    b ∈ bucketEntries ∧ 0 < b.files ∧ pinnedSignatures b.signature = true := by
  rw [pinnedBuckets, List.mem_filter, activeBuckets, List.mem_filter, decide_eq_true_iff, and_assoc]

theorem mem_scalableBuckets {b : Bucket} : b ∈ scalableBuckets bucketEntries pinnedSignatures ↔
    b ∈ bucketEntries ∧ 0 < b.files ∧ pinnedSignatures b.signature = false := by
  rw [scalableBuckets, List.mem_filter, activeBuckets, List.mem_filter, decide_eq_true_iff,
    and_assoc, Bool.not_eq_true']

/-- The buckets without files, the pinned ones and the scalable ones are all buckets. -/
theorem sum_split (pinnedSignatures : String → Bool) (f : Bucket → ℕ) : (bucketEntries.map f).sum =
    ((bucketEntries.filter fun b => b.files = 0).map f).sum +
      (((pinnedBuckets bucketEntries pinnedSignatures).map f).sum +
        ((scalableBuckets bucketEntries pinnedSignatures).map f).sum) := by
  have hactive := (List.filter_append_perm (fun b => decide (0 < b.files)) bucketEntries).map f
  have hpinned := (List.filter_append_perm (fun b => pinnedSignatures b.signature)
    (activeBuckets bucketEntries)).map f
  rw [← hactive.sum_eq, List.map_append, List.sum_append, ← activeBuckets, ← hpinned.sum_eq,
    List.map_append, List.sum_append, ← pinnedBuckets, ← scalableBuckets, Nat.add_comm]
  congr 5
  ext b
  rw [← decide_not, decide_eq_decide]
  omega

/-- An explicit bucket gets the largest number its projects ask for. -/
theorem one_le_explicit {b : Bucket} (h : b.explicitValues ≠ []) :
    1 ≤ b.explicitValues.foldl max 0 := by
  have hmono : ∀ (l : List ℕ) (n : ℕ), n ≤ l.foldl max n := by
    intro l
    induction l with
    | nil => exact fun n => le_rfl
    | cons w l ih => exact fun n => (le_max_left n w).trans (ih _)
  obtain ⟨w, rest, hsplit⟩ := List.exists_cons_of_ne_nil h
  have hw : 0 < w := by
    have hmem : w ∈ b.explicitValues := by
      rw [hsplit]
      exact List.mem_cons_self
    exact of_decide_eq_true (List.mem_filter.mp hmem).2
  rw [hsplit, List.foldl_cons]
  have := hmono rest (max 0 w)
  omega

/-- The scalable buckets before a cap: all have workers, and where no project asks for a number
    they share the budget. -/
theorem natural_spec (result : Allocation)
    (hdistinct : (bucketEntries.map Bucket.signature).Nodup)
    (hne : scalableBuckets bucketEntries pinnedSignatures ≠ []) (budget : ℕ) :
    let natural := shareImplicit budget (implicitBuckets bucketEntries pinnedSignatures)
      ((explicitBuckets bucketEntries pinnedSignatures).foldl
        (fun result b => result.set b.signature (b.explicitValues.foldl max 0)) result)
    Staffed (scalableBuckets bucketEntries pinnedSignatures) natural ∧
      LeavesOthers (scalableBuckets bucketEntries pinnedSignatures) result natural ∧
      ((∀ b ∈ bucketEntries, b.explicitValues = []) →
        Shared (rankBy Bucket.files (scalableBuckets bucketEntries pinnedSignatures))
          (max budget (scalableBuckets bucketEntries pinnedSignatures).length) natural) := by
  intro natural
  have hsub : scalableBuckets bucketEntries pinnedSignatures ⊆ bucketEntries :=
    fun b hb => (mem_scalableBuckets.mp hb).1
  have hscal : ((scalableBuckets bucketEntries pinnedSignatures).map Bucket.signature).Nodup :=
    hdistinct.sublist ((List.filter_sublist.trans List.filter_sublist).map _)
  have hexpl : ((explicitBuckets bucketEntries pinnedSignatures).map Bucket.signature).Nodup :=
    hscal.sublist (List.filter_sublist.map _)
  have himpl : ((implicitBuckets bucketEntries pinnedSignatures).map Bucket.signature).Nodup :=
    hscal.sublist (List.filter_sublist.map _)
  have hfiles : ∀ b ∈ implicitBuckets bucketEntries pinnedSignatures, 0 < b.files :=
    fun b hb => (mem_scalableBuckets.mp (List.mem_of_mem_filter hb)).2.1
  have hexplicit_mem : ∀ b ∈ explicitBuckets bucketEntries pinnedSignatures,
      ((explicitBuckets bucketEntries pinnedSignatures).foldl
        (fun result b => result.set b.signature (b.explicitValues.foldl max 0)) result)
          b.signature = some (b.explicitValues.foldl max 0) :=
    fun b hb => foldl_set_of_mem (f := fun b => b.explicitValues.foldl max 0) hexpl hb
  have hexplicit_others : LeavesOthers (explicitBuckets bucketEntries pinnedSignatures) result
      ((explicitBuckets bucketEntries pinnedSignatures).foldl
        (fun result b => result.set b.signature (b.explicitValues.foldl max 0)) result) :=
    leavesOthers_foldl_set fun b => b.explicitValues.foldl max 0
  subst natural
  generalize (explicitBuckets bucketEntries pinnedSignatures).foldl
    (fun result b => result.set b.signature (b.explicitValues.foldl max 0)) result = explicit at *
  have hpart : ∀ b ∈ scalableBuckets bucketEntries pinnedSignatures,
      b ∈ explicitBuckets bucketEntries pinnedSignatures ∨
        b ∈ implicitBuckets bucketEntries pinnedSignatures := by
    intro b hb
    by_cases hvalues : b.explicitValues = []
    · exact .inr (List.mem_filter.mpr ⟨hb, decide_eq_true hvalues⟩)
    · exact .inl (List.mem_filter.mpr ⟨hb, decide_eq_true hvalues⟩)
  have hexplicit_one : ∀ b ∈ explicitBuckets bucketEntries pinnedSignatures,
      1 ≤ b.explicitValues.foldl max 0 :=
    fun b hb => one_le_explicit (of_decide_eq_true (List.mem_filter.mp hb).2)
  have hsubset : ∀ {signature : String} {q : Bucket → Bool},
      signature ∉ (scalableBuckets bucketEntries pinnedSignatures).map Bucket.signature →
        signature ∉ ((scalableBuckets bucketEntries pinnedSignatures).filter q).map
          Bucket.signature :=
    fun hnot hmem => hnot ((List.filter_sublist.map _).subset hmem)
  by_cases hnone : implicitBuckets bucketEntries pinnedSignatures = []
  · rw [shareImplicit, if_pos hnone]
    refine ⟨?_, fun signature hnot => hexplicit_others signature (hsubset hnot), ?_⟩
    · intro b hb
      rcases hpart b hb with hb | hb
      · exact ⟨_, hexplicit_mem b hb, hexplicit_one b hb⟩
      · rw [hnone] at hb
        exact absurd hb List.not_mem_nil
    · intro hall
      obtain ⟨b, hb⟩ := List.exists_mem_of_ne_nil _ hne
      have hmem : b ∈ implicitBuckets bucketEntries pinnedSignatures :=
        List.mem_filter.mpr ⟨hb, decide_eq_true (hall b (hsub hb))⟩
      rw [hnone] at hmem
      exact absurd hmem List.not_mem_nil
  · obtain ⟨hshared, hothers⟩ := shareImplicit_spec budget explicit himpl
      hnone hfiles
    refine ⟨?_, ?_, ?_⟩
    · intro b hb
      by_cases hb' : b ∈ implicitBuckets bucketEntries pinnedSignatures
      · exact staffed_of_ranked _ hshared.pos b hb'
      · have hexplicit := (hpart b hb).resolve_right hb'
        rw [hothers _ (signature_not_mem hscal (List.filter_subset_self _) hb hb')]
        exact ⟨_, hexplicit_mem b hexplicit, hexplicit_one b hexplicit⟩
    · intro signature hnot
      rw [hothers _ (hsubset hnot), hexplicit_others _ (hsubset hnot)]
    · intro hall
      have hsame : implicitBuckets bucketEntries pinnedSignatures =
          scalableBuckets bucketEntries pinnedSignatures :=
        List.filter_eq_self.mpr fun b hb => decide_eq_true (hall b (hsub hb))
      rwa [hsame] at hshared ⊢

/-- **The allocation.**  For buckets with different signatures, any budget, any cap and any
    pinned set. -/
theorem allocateBucketWorkers_exact
    (hdistinct : (bucketEntries.map Bucket.signature).Nodup) :
    AllocationExact totalBudget bucketEntries budgetCap pinnedSignatures
      (allocateBucketWorkers totalBudget bucketEntries budgetCap pinnedSignatures) := by
  have hpinnedSigs : ((pinnedBuckets bucketEntries pinnedSignatures).map Bucket.signature).Nodup :=
    hdistinct.sublist ((List.filter_sublist.trans List.filter_sublist).map _)
  have hscalSigs : ((scalableBuckets bucketEntries pinnedSignatures).map Bucket.signature).Nodup :=
    hdistinct.sublist ((List.filter_sublist.trans List.filter_sublist).map _)
  have hscalSub : scalableBuckets bucketEntries pinnedSignatures ⊆ bucketEntries :=
    fun b hb => (mem_scalableBuckets.mp hb).1
  have hpinnedSub : pinnedBuckets bucketEntries pinnedSignatures ⊆ bucketEntries :=
    fun b hb => (mem_pinnedBuckets.mp hb).1
  -- the buckets without files, then the pinned ones
  generalize hstart : (bucketEntries.filter fun b => b.files = 0).foldl
    (fun (result : Allocation) b => result.set b.signature 0) (fun _ => none) = start
  have hstart_zero : ∀ b ∈ bucketEntries, b.files = 0 → start b.signature = some 0 := by
    intro b hb hzero
    rw [← hstart]
    exact foldl_set_of_mem (f := fun _ => 0) (hdistinct.sublist (List.filter_sublist.map _))
      (List.mem_filter.mpr ⟨hb, decide_eq_true hzero⟩)
  generalize hbase : setAllToOne start (pinnedBuckets bucketEntries pinnedSignatures) = base
  have hbase_zero : ∀ b ∈ bucketEntries, b.files = 0 → base b.signature = some 0 := by
    intro b hb hzero
    rw [← hbase, setAllToOne, foldl_set_of_not_mem (f := fun _ => 1) (signature_not_mem hdistinct
      hpinnedSub hb fun hmem => by have := (mem_pinnedBuckets.mp hmem).2.1; omega)]
    exact hstart_zero b hb hzero
  have hbase_pinned : ∀ b ∈ pinnedBuckets bucketEntries pinnedSignatures,
      base b.signature = some 1 := by
    intro b hb
    rw [← hbase]
    exact foldl_set_of_mem (f := fun _ => 1) hpinnedSigs hb
  -- what the scalable buckets get leaves the others alone
  have hwhole : ∀ final, LeavesOthers (scalableBuckets bucketEntries pinnedSignatures) base final →
      Staffed (scalableBuckets bucketEntries pinnedSignatures) final →
      (∀ cap, budgetCap = some cap → scalableBuckets bucketEntries pinnedSignatures ≠ [] →
        ((scalableBuckets bucketEntries pinnedSignatures).map final.workersOf).sum =
          max (cap - (pinnedBuckets bucketEntries pinnedSignatures).length)
            (scalableBuckets bucketEntries pinnedSignatures).length) →
      (budgetCap = none → scalableBuckets bucketEntries pinnedSignatures ≠ [] →
        (∀ b ∈ bucketEntries, b.explicitValues = []) →
        Shared (rankBy Bucket.files (scalableBuckets bucketEntries pinnedSignatures))
          (max (totalBudget - (pinnedBuckets bucketEntries pinnedSignatures).length)
            (scalableBuckets bucketEntries pinnedSignatures).length) final) →
      AllocationExact totalBudget bucketEntries budgetCap pinnedSignatures final := by
    intro final hothers hstaffed hcap hshared
    have hzero : ∀ b ∈ bucketEntries, b.files = 0 → final b.signature = some 0 := by
      intro b hb hfiles
      rw [hothers _ (signature_not_mem hdistinct hscalSub hb fun hmem => by
        have := (mem_scalableBuckets.mp hmem).2.1
        omega)]
      exact hbase_zero b hb hfiles
    have hone : ∀ b ∈ pinnedBuckets bucketEntries pinnedSignatures,
        final b.signature = some 1 := by
      intro b hb
      have hpin := (mem_pinnedBuckets.mp hb).2.2
      rw [hothers _ (signature_not_mem hdistinct hscalSub (hpinnedSub hb) fun hmem => by
        rw [(mem_scalableBuckets.mp hmem).2.2] at hpin
        cases hpin)]
      exact hbase_pinned b hb
    refine ⟨hzero, ?_, ?_, ?_, ?_, ?_⟩
    · intro b hb hfiles hpin
      exact hone b (mem_pinnedBuckets.mpr ⟨hb, hfiles, hpin⟩)
    · intro b hb hfiles
      cases hpin : pinnedSignatures b.signature with
      | true => exact ⟨1, hone b (mem_pinnedBuckets.mpr ⟨hb, hfiles, hpin⟩), le_rfl⟩
      | false => exact hstaffed b (mem_scalableBuckets.mpr ⟨hb, hfiles, hpin⟩)
    · intro cap hsome hne
      have hzeros : ((bucketEntries.filter fun b => b.files = 0).map final.workersOf).sum = 0 := by
        rw [List.sum_eq_zero_iff]
        intro n hn
        obtain ⟨b, hb, rfl⟩ := List.mem_map.mp hn
        obtain ⟨hmem, hfiles⟩ := List.mem_filter.mp hb
        rw [Allocation.workersOf, hzero b hmem (of_decide_eq_true hfiles), Option.getD_some]
      have hones : ((pinnedBuckets bucketEntries pinnedSignatures).map final.workersOf).sum =
          (pinnedBuckets bucketEntries pinnedSignatures).length := by
        rw [← sum_ones]
        congr 1
        apply List.map_congr_left
        intro b hb
        rw [Allocation.workersOf, hone b hb, Option.getD_some]
      rw [sum_split pinnedSignatures, hzeros, hones, hcap cap hsome hne,
        Nat.zero_add]
    · intro hcapless hne himplicit
      rw [← sumOver_rankBy Bucket.files]
      exact (hshared hcapless hne himplicit).sum
    · intro hcapless himplicit b hb c hc hlt
      exact (hshared hcapless (List.ne_nil_of_mem hb) himplicit).mono hb hc hlt
  unfold allocateBucketWorkers
  dsimp only
  rw [hstart, hbase]
  have hempty : scalableBuckets bucketEntries pinnedSignatures = [] →
      AllocationExact totalBudget bucketEntries budgetCap pinnedSignatures base := by
    intro hnil
    refine hwhole base (fun _ _ => rfl) ?_ (fun _ _ hne => absurd hnil hne)
      fun _ hne => absurd hnil hne
    rw [hnil]
    exact fun b hb => absurd hb List.not_mem_nil
  by_cases hactive : activeBuckets bucketEntries = []
  · have hpinned : pinnedBuckets bucketEntries pinnedSignatures = [] := by
      rw [pinnedBuckets, hactive, List.filter_nil]
    have hscal : scalableBuckets bucketEntries pinnedSignatures = [] := by
      rw [scalableBuckets, hactive, List.filter_nil]
    rw [hpinned] at hbase
    rw [if_pos hactive, show start = base from hbase]
    exact hempty hscal
  rw [if_neg hactive]
  by_cases hscal : scalableBuckets bucketEntries pinnedSignatures = []
  · rw [if_pos hscal]
    exact hempty hscal
  rw [if_neg hscal]
  obtain ⟨hstaffed, hothers, hshared⟩ := natural_spec base hdistinct hscal
    (totalBudget - (pinnedBuckets bucketEntries pinnedSignatures).length)
  unfold applyCap
  cases budgetCap with
  | none => exact hwhole _ hothers hstaffed (fun _ h => by cases h) fun _ _ => hshared
  | some cap =>
    obtain ⟨hstaffed', hsum, hothers'⟩ := scaleToBudget_spec
      (cap - (pinnedBuckets bucketEntries pinnedSignatures).length) hscalSigs hscal hstaffed
    refine hwhole _ (hothers.trans hothers') hstaffed' ?_ fun h => by cases h
    intro cap' hcap' _
    cases hcap'
    exact hsum

end Whole

/-! ### A pinned tablet and two phones -/

/-- A bucket of one project with the given files. -/
def bucketOf (signature : String) (files : List String) : Bucket :=
  { signature, projects := [{ name := signature, testFiles := files }] }

theorem allocateBucketWorkers_exact_phones :
    AllocationExact 5 [bucketOf "pixel" ["a", "b", "c"], bucketOf "iphone" ["d"],
        bucketOf "tablet" ["e", "f"]] none (· = "tablet")
      (allocateBucketWorkers 5 [bucketOf "pixel" ["a", "b", "c"], bucketOf "iphone" ["d"],
        bucketOf "tablet" ["e", "f"]] none (· = "tablet")) :=
  allocateBucketWorkers_exact (by decide)

/-- Without a scalable bucket the budget goes to nobody, and a pinned bucket keeps to one worker
    however many files it has. -/
theorem pinned_bucket_keeps_to_one :
    ((scalableBuckets [] fun _ => false).map
      (allocateBucketWorkers 4 [] none fun _ => false).workersOf).sum ≠ max 4 0 ∧
    let buckets := [bucketOf "tablet" ["e", "f"], bucketOf "iphone" ["d"]]
    let result := allocateBucketWorkers 4 buckets none (· = "tablet")
    result "tablet" = some 1 ∧ result "iphone" = some 3 := by
  refine ⟨by decide, ?_⟩
  decide +kernel

end Tapsmith.Project
