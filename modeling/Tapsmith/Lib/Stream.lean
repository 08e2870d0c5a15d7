import Mathlib.Data.List.Basic
import Mathlib.Tactic.Linarith

namespace Lib.Stream

/-!
# Streams that arrive in reads

A `Transport` lists what the successive reads of a socket meet: items that are ready,
an I/O error, or nothing before the time-out.  An empty `ready` is the end of the
stream, as a read of zero bytes is.

* `read` / `readExact` — the two ways of taking items, both bounded by the caller;
* `avail` — the items that arrive before anything else happens; both readers are
  specified by it alone (`read_cases`, `readExact_of_le`, `readExact_eq_ok`);
* `delivered` — what the reads that cover the first `k` items have brought along.
-/

variable {α : Type}

/-- What one read meets. -/
inductive Event (α : Type) where
  | ready (items : List α)
  | error
  | timeout
  deriving DecidableEq

/-- What successive reads meet; past the end nothing arrives any more. -/
abbrev Transport (α : Type) := List (Event α)

/-- Take at most `n` items of what arrives next. -/
def read (n : ℕ) : Transport α → Event α × Transport α
  | [] => (.timeout, [])
  | .ready bs :: t =>
    if bs.length ≤ n then (.ready bs, t)
    else (.ready (bs.take n), .ready (bs.drop n) :: t)
  | .error :: t => (.error, t)
  | .timeout :: t => (.timeout, t)

/-- Why an exact read failed. -/
inductive ReadError where
  | unexpectedEof
  | io
  | elapsed
  deriving DecidableEq

/-- Take exactly `n` items, over as many reads as it takes. -/
def readExact : ℕ → Transport α → Except ReadError (List α) × Transport α
  | 0, t => (.ok [], t)
  | _ + 1, [] => (.error .elapsed, [])
  | _ + 1, .error :: t => (.error .io, t)
  | _ + 1, .timeout :: t => (.error .elapsed, t)
  | n + 1, .ready bs :: t =>
    if bs = [] then (.error .unexpectedEof, t)
    else if bs.length ≤ n + 1 then
      match readExact (n + 1 - bs.length) t with
      | (.ok rest, t') => (.ok (bs ++ rest), t')
      | (.error e, t') => (.error e, t')
    else (.ok (bs.take (n + 1)), .ready (bs.drop (n + 1)) :: t)

/-- The items that arrive before the end, an error or a time-out. -/
def avail : Transport α → List α
  | .ready bs :: t => if bs = [] then [] else bs ++ avail t
  | _ => []

/-- A bound on the number of reads a transport can answer. -/
def size : Transport α → ℕ
  | [] => 0
  | .ready bs :: t => bs.length + 1 + size t
  | _ :: t => 1 + size t

@[simp] theorem avail_nil : avail ([] : Transport α) = [] := rfl
@[simp] theorem avail_error (t : Transport α) : avail (.error :: t) = [] := rfl
@[simp] theorem avail_timeout (t : Transport α) : avail (.timeout :: t) = [] := rfl
@[simp] theorem avail_eof (t : Transport α) : avail (.ready [] :: t) = [] := rfl

theorem avail_ready {bs : List α} (h : bs ≠ []) (t : Transport α) :
    avail (.ready bs :: t) = bs ++ avail t := by
  simp [avail, h]

theorem avail_length_le_size (t : Transport α) : (avail t).length ≤ size t := by
  induction t with
  | nil => exact le_refl 0
  | cons e t ih =>
    cases e with
    | error => exact Nat.zero_le _
    | timeout => exact Nat.zero_le _
    | ready bs =>
      by_cases hbs : bs = []
      · subst hbs
        exact Nat.zero_le _
      · rw [avail_ready hbs, List.length_append, size]
        omega

/-! ### One read -/

/-- **What a read does.**  Either items are available and a non-empty run of them is
    taken, or none are and the read reports the end, an error or the time-out. -/
theorem read_cases (n : ℕ) (hn : 0 < n) (t : Transport α) :
    (∃ bs t', read n t = (.ready bs, t') ∧ bs ≠ [] ∧ bs.length ≤ n ∧
        avail t = bs ++ avail t' ∧ size t' < size t) ∨
      (avail t = [] ∧ ∀ bs, (read n t).1 = .ready bs → bs = []) := by
  cases t with
  | nil => right; simp [read]
  | cons e t =>
    cases e with
    | error => right; simp [read]
    | timeout => right; simp [read]
    | ready bs =>
      by_cases hbs : bs = []
      · subst hbs
        right
        simp [read, eq_comm]
      by_cases hle : bs.length ≤ n
      · left
        refine ⟨bs, t, by simp [read, hle], hbs, hle, avail_ready hbs t, ?_⟩
        simp only [size]; omega
      · left
        have hdrop : bs.drop n ≠ [] := by simp; omega
        refine ⟨bs.take n, .ready (bs.drop n) :: t, by simp [read, hle], ?_, by simp, ?_, ?_⟩
        · simp [hbs]; omega
        · rw [avail_ready hbs, avail_ready hdrop, ← List.append_assoc, List.take_append_drop]
        · simp only [size, List.length_drop]; omega

/-! ### Exact reads -/

/-- An exact read succeeds when enough items are available. -/
theorem readExact_of_le {n : ℕ} {t : Transport α} (h : n ≤ (avail t).length) :
    ∃ t', readExact n t = (.ok ((avail t).take n), t') ∧ avail t' = (avail t).drop n := by
  induction t generalizing n with
  | nil =>
    obtain rfl : n = 0 := by simpa using h
    exact ⟨[], rfl, rfl⟩
  | cons e t ih =>
    cases n with
    | zero => exact ⟨e :: t, by simp [readExact], by simp⟩
    | succ n =>
      cases e with
      | error => simp at h
      | timeout => simp at h
      | ready bs =>
        by_cases hbs : bs = []
        · simp [hbs] at h
        rw [avail_ready hbs] at h ⊢
        by_cases hle : bs.length ≤ n + 1
        · obtain ⟨t', ht', hav⟩ := ih (n := n + 1 - bs.length) (by simp at h; omega)
          refine ⟨t', ?_, ?_⟩
          · simp only [readExact, if_neg hbs, if_pos hle, ht', List.take_append,
              List.take_of_length_le hle]
          · rw [hav, List.drop_append, List.drop_of_length_le hle, List.nil_append]
        · have hdrop : bs.drop (n + 1) ≠ [] := by simp; omega
          refine ⟨.ready (bs.drop (n + 1)) :: t, ?_, ?_⟩
          · rw [readExact, if_neg hbs, if_neg hle, List.take_append_of_le_length (by omega)]
          · rw [avail_ready hdrop, List.drop_append_of_le_length (by omega)]

/-- An exact read that succeeds took the items that were available. -/
theorem readExact_eq_ok {n : ℕ} {t t' : Transport α} {bs : List α}
    (h : readExact n t = (.ok bs, t')) :
    n ≤ (avail t).length ∧ bs = (avail t).take n ∧ avail t' = (avail t).drop n := by
  suffices hle : n ≤ (avail t).length by
    obtain ⟨t'', ht'', hav⟩ := readExact_of_le hle
    rw [h, Prod.mk.injEq, Except.ok.injEq] at ht''
    obtain ⟨rfl, rfl⟩ := ht''
    exact ⟨hle, rfl, hav⟩
  induction t generalizing n bs t' with
  | nil => cases n <;> simp_all [readExact]
  | cons e t ih =>
    cases n with
    | zero => omega
    | succ n =>
      cases e with
      | error => simp [readExact] at h
      | timeout => simp [readExact] at h
      | ready xs =>
        by_cases hxs : xs = []
        · simp [readExact, hxs] at h
        rw [avail_ready hxs, List.length_append]
        by_cases hle : xs.length ≤ n + 1
        · rw [readExact, if_neg hxs, if_pos hle] at h
          split at h
          · rename_i rest t₂ hrec
            have := ih hrec
            omega
          · cases h
        · omega

/-! ### Streams cut into reads -/

/-- A way of cutting `l` into non-empty reads of at most `limit` items. -/
structure Cut (limit : ℕ) (l : List α) where
  reads : List (List α)
  flatten_eq : reads.flatten = l
  reads_ne : ∀ r ∈ reads, r ≠ []
  reads_le : ∀ r ∈ reads, r.length ≤ limit

/-- The same cut of a list written differently. -/
def Cut.cast {limit : ℕ} {l l' : List α} (h : l = l') (c : Cut limit l) : Cut limit l' :=
  ⟨c.reads, c.flatten_eq.trans h, c.reads_ne, c.reads_le⟩

/-- The transport that delivers `reads`, and then whatever happens. -/
def ofReads (reads : List (List α)) (more : Transport α) : Transport α :=
  reads.map .ready ++ more

/-- The transport of a stream that is cut in that way. -/
def Cut.transport {limit : ℕ} {l : List α} (c : Cut limit l) (more : Transport α) :
    Transport α :=
  ofReads c.reads more

/-- The number of items in the shortest run of reads that covers the first `k` items. -/
def delivered : List (List α) → ℕ → ℕ
  | [], _ => 0
  | r :: rs, k => if k ≤ r.length then r.length else r.length + delivered rs (k - r.length)

/-- The number of items delivered by the reads that cover the first `k` items. -/
def Cut.delivered {limit : ℕ} {l : List α} (c : Cut limit l) (k : ℕ) : ℕ :=
  Stream.delivered c.reads k

theorem ofReads_cons (r : List α) (rs : List (List α)) (more : Transport α) :
    ofReads (r :: rs) more = .ready r :: ofReads rs more := rfl

theorem avail_ofReads {reads : List (List α)} (h : ∀ r ∈ reads, r ≠ []) (more : Transport α) :
    avail (ofReads reads more) = reads.flatten ++ avail more := by
  induction reads with
  | nil => rfl
  | cons r rs ih =>
    have hr : r ≠ [] := h r (by simp)
    have hrs := ih fun x hx => h x (by simp [hx])
    rw [ofReads_cons, avail_ready hr, hrs, List.flatten_cons, List.append_assoc]

theorem Cut.avail_transport {limit : ℕ} {l : List α} (c : Cut limit l) (more : Transport α) :
    avail (c.transport more) = l ++ avail more := by
  rw [Cut.transport, avail_ofReads c.reads_ne, c.flatten_eq]

theorem le_delivered {reads : List (List α)} {k : ℕ} (hk : k ≤ reads.flatten.length) :
    k ≤ delivered reads k := by
  induction reads generalizing k with
  | nil => exact hk
  | cons r rs ih =>
    rw [List.flatten_cons, List.length_append] at hk
    rw [delivered]
    split
    · assumption
    · have := ih (k := k - r.length) (by omega)
      omega

theorem delivered_le (reads : List (List α)) (k : ℕ) :
    delivered reads k ≤ reads.flatten.length := by
  induction reads generalizing k with
  | nil => simp [delivered]
  | cons r rs ih =>
    rw [delivered, List.flatten_cons, List.length_append]
    split
    · omega
    · have := ih (k - r.length)
      omega

theorem Cut.le_delivered {limit : ℕ} {l : List α} (c : Cut limit l) {k : ℕ}
    (hk : k ≤ l.length) : k ≤ c.delivered k :=
  Stream.le_delivered (by rwa [c.flatten_eq])

theorem Cut.delivered_le {limit : ℕ} {l : List α} (c : Cut limit l) (k : ℕ) :
    c.delivered k ≤ l.length :=
  (Stream.delivered_le c.reads k).trans (by rw [c.flatten_eq])

/-- A read that fits the buffer is taken whole. -/
theorem read_ready {n : ℕ} {r : List α} (h : r.length ≤ n) (t : Transport α) :
    read n (.ready r :: t) = (.ready r, t) := by
  rw [read, if_pos h]

end Lib.Stream
