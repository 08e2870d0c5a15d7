import Mathlib.Data.List.Basic

namespace Lib.Channel

/-!
# A copy behind a channel

The owner of a value does not change a remote copy of it directly: it writes messages into a
first-in, first-out channel, and the copy follows as they are read.

* `Link` — what is on its way, and the copy;
* `Link.ahead` — the copy once everything on its way is read, which is what the owner goes by;
* `ahead_send`, `ahead_receive` — a message written moves it on, a message read does not;
* `ahead_of_drained` — where nothing is on its way, it is the copy.
-/

variable {μ σ : Type}

/-- A channel and the copy at its end. -/
structure Link (μ σ : Type) where
  queue : List μ
  copy : σ

/-- A message is written. -/
def Link.send (l : Link μ σ) (m : μ) : Link μ σ := { l with queue := l.queue ++ [m] }

/-- The oldest message is read, and what it does to the copy is `apply`. -/
def Link.receive (apply : σ → μ → σ) (l : Link μ σ) : Option (μ × Link μ σ) :=
  match l.queue with
  | [] => none
  | m :: rest => some (m, { queue := rest, copy := apply l.copy m })

/-- The copy once everything on its way is read. -/
def Link.ahead (apply : σ → μ → σ) (l : Link μ σ) : σ := l.queue.foldl apply l.copy

variable {apply : σ → μ → σ} {l l' : Link μ σ} {m : μ}

@[simp] theorem Link.send_queue : (l.send m).queue = l.queue ++ [m] := rfl

@[simp] theorem Link.send_copy : (l.send m).copy = l.copy := rfl

theorem Link.receive_eq_some (h : l.receive apply = some (m, l')) :
    l.queue = m :: l'.queue ∧ l'.copy = apply l.copy m := by
  unfold receive at h
  split at h
  · cases h
  · rename_i hqueue
    cases h
    exact ⟨hqueue, rfl⟩

theorem ahead_send : (l.send m).ahead apply = apply (l.ahead apply) m := by
  show (l.queue ++ [m]).foldl apply l.copy = _
  rw [List.foldl_append]
  rfl

theorem ahead_receive (h : l.receive apply = some (m, l')) : l'.ahead apply = l.ahead apply := by
  obtain ⟨hqueue, hcopy⟩ := Link.receive_eq_some h
  rw [Link.ahead, Link.ahead, hqueue, hcopy, List.foldl_cons]

theorem ahead_of_drained (h : l.queue = []) : l.ahead apply = l.copy := by
  rw [Link.ahead, h, List.foldl_nil]

end Lib.Channel
