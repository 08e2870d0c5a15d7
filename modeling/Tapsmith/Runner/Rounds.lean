import Mathlib.Logic.Function.Basic
import Tapsmith.Lib.Machine
import Tapsmith.Runner.Frame

namespace Tapsmith.Runner

open Lib.Machine

/-!
# Rounds of hooks

A round is the hooks of one kind of a scope, run one after the other.  The log of a run shows where
rounds of beforeAll hooks are started and completed, and where rounds of afterAll hooks run.

* `Paired` — the rounds of every scope are paired, and no test body runs on a torn down scope;
* `Stage`, `track` — where a scope is after a part of the log;
* `Legal`, `paired_of_legal` — a log whose events all come at a stage that allows them.
-/

/-- Since the last round of afterAll hooks of the scope, one of beforeAll hooks was started. -/
def StartedSince (scope : List ℕ) (log : List Event) : Prop :=
  ∃ pre post, log = pre ++ .beforeAll scope :: post ∧ .afterAll scope ∉ post

structure Paired (log : List Event) : Prop where
  started : ∀ scope pre post, log = pre ++ .afterAll scope :: post → StartedSince scope pre
  ended : ∀ scope pre post, log = pre ++ .completed scope :: post →
    ∃ mid rest, post = mid ++ .afterAll scope :: rest ∧ .beforeAll scope ∉ mid
  standing : ∀ scope pre post, log = pre ++ .body scope :: post →
    ∀ outer, outer <:+ scope → ∀ pre₁ pre₂, pre = pre₁ ++ .afterAll outer :: pre₂ →
      .completed outer ∈ pre₂

/-! ### Stages -/

/-- Where a scope is: `down` and `restarted` if it was torn down and not set up again since. -/
inductive Stage
  | idle
  | started
  | done
  | down
  | restarted
deriving DecidableEq

def Stage.torn : Stage → Bool
  | .down | .restarted => true
  | .idle | .started | .done => false

/-- A round of beforeAll hooks was started, and no round of afterAll hooks has run since. -/
def Stage.begun : Stage → Bool
  | .started | .restarted | .done => true
  | .idle | .down => false

abbrev Stages := List ℕ → Stage

def track (m : Stages) : Event → Stages
  | .beforeAll scope =>
    Function.update m scope (if (m scope).torn then .restarted else .started)
  | .completed scope => Function.update m scope .done
  | .afterAll scope => Function.update m scope .down
  | .report _ | .body _ | .rebuildBroken => m

def Allowed (m : Stages) : Event → Prop
  | .beforeAll scope => m scope ≠ .done
  | .completed scope => (m scope).begun = true
  | .afterAll scope => (m scope).begun = true
  | .body scope => ∀ outer, outer <:+ scope → (m outer).torn = false
  | .report _ | .rebuildBroken => True

def Follows (m : Stages) (e : Event) (m' : Stages) : Prop := Allowed m e ∧ m' = track m e

def stages (log : List Event) : Stages := log.foldl track fun _ => .idle

/-- Every event of the log is allowed where it comes. -/
def Legal (log : List Event) : Prop := Run Follows (fun _ => .idle) log (stages log)

theorem stages_append (log log' : List Event) :
    stages (log ++ log') = log'.foldl track (stages log) :=
  List.foldl_append

theorem Legal.snoc {log : List Event} {e : Event} (h : Legal log) (he : Allowed (stages log) e) :
    Legal (log ++ [e]) := by
  unfold Legal
  rw [stages_append]
  exact Run.snoc h ⟨he, rfl⟩

/-! ### Legal logs are paired -/

variable {m m' : Stages} {scope : List ℕ} {log : List Event}

/-- An event is part of a round of the scope, or leaves its stage alone. -/
theorem round_cases (scope : List ℕ) (e : Event) :
    e = .beforeAll scope ∨ e = .completed scope ∨ e = .afterAll scope ∨
      (e ≠ .beforeAll scope ∧ e ≠ .completed scope ∧ e ≠ .afterAll scope ∧
        ∀ m, track m e scope = m scope) := by
  have hne : ∀ other, other ≠ scope → ∀ (m : Stages) stage,
      Function.update m other stage scope = m scope :=
    fun other h m stage => Function.update_of_ne h.symm stage m
  cases e with
  | report result => exact .inr (.inr (.inr ⟨nofun, nofun, nofun, fun _ => rfl⟩))
  | body other => exact .inr (.inr (.inr ⟨nofun, nofun, nofun, fun _ => rfl⟩))
  | rebuildBroken => exact .inr (.inr (.inr ⟨nofun, nofun, nofun, fun _ => rfl⟩))
  | beforeAll other =>
    by_cases h : other = scope
    · exact .inl (by rw [h])
    · exact .inr (.inr (.inr ⟨fun he => h (Event.beforeAll.inj he), nofun, nofun,
        fun m => hne other h m _⟩))
  | completed other =>
    by_cases h : other = scope
    · exact .inr (.inl (by rw [h]))
    · exact .inr (.inr (.inr ⟨nofun, fun he => h (Event.completed.inj he), nofun,
        fun m => hne other h m _⟩))
  | afterAll other =>
    by_cases h : other = scope
    · exact .inr (.inr (.inl (by rw [h])))
    · exact .inr (.inr (.inr ⟨nofun, nofun, fun he => h (Event.afterAll.inj he),
        fun m => hne other h m _⟩))

theorem StartedSince.snoc {e : Event} (h : StartedSince scope log) (he : e ≠ .afterAll scope) :
    StartedSince scope (log ++ [e]) := by
  obtain ⟨pre, post, rfl, hpost⟩ := h
  refine ⟨pre, post ++ [e], by simp, fun hmem => ?_⟩
  rcases List.mem_append.mp hmem with hmem | hmem
  · exact hpost hmem
  · exact he (List.mem_singleton.mp hmem).symm

theorem startedSince_of_begun (h : Run Follows (fun _ => .idle) log m)
    (hbegun : (m scope).begun = true) : StartedSince scope log := by
  induction h with
  | nil => cases hbegun
  | @snoc log m m' e hrun hstep ih =>
    obtain ⟨hallowed, rfl⟩ := hstep
    rcases round_cases scope e with rfl | rfl | rfl | ⟨-, -, he, htrack⟩
    · exact ⟨log, [], rfl, nofun⟩
    · exact (ih hallowed).snoc nofun
    · rw [track, Function.update_self] at hbegun
      cases hbegun
    · rw [htrack] at hbegun
      exact (ih hbegun).snoc he

/-- A scope that was torn down stays so until it is set up again. -/
theorem torn_or_completed (h : Run Follows m log m') (htorn : (m scope).torn = true) :
    (m' scope).torn = true ∨ .completed scope ∈ log := by
  induction h with
  | nil => exact .inl htorn
  | @snoc log m m' e hrun hstep ih =>
    obtain ⟨-, rfl⟩ := hstep
    rcases ih with ih | ih
    · rcases round_cases scope e with rfl | rfl | rfl | ⟨-, -, -, htrack⟩
      · rw [track, Function.update_self, if_pos ih]
        exact .inl rfl
      · exact .inr (List.mem_append_right _ (List.mem_singleton.mpr rfl))
      · rw [track, Function.update_self]
        exact .inl rfl
      · rw [htrack]
        exact .inl ih
    · exact .inr (List.mem_append_left _ ih)

/-- A round that is completed is torn down before the next one is started. -/
theorem done_or_ended (h : Run Follows m log m') (hdone : m scope = .done) :
    (m' scope = .done ∧ .beforeAll scope ∉ log) ∨
      ∃ mid rest, log = mid ++ .afterAll scope :: rest ∧ .beforeAll scope ∉ mid := by
  induction h with
  | nil => exact .inl ⟨hdone, List.not_mem_nil⟩
  | @snoc log m m' e hrun hstep ih =>
    obtain ⟨hallowed, rfl⟩ := hstep
    rcases ih with ⟨hstill, hno⟩ | ⟨mid, rest, rfl, hmid⟩
    · have hsnoc : e ≠ .beforeAll scope → .beforeAll scope ∉ log ++ [e] := by
        intro he hmem
        rcases List.mem_append.mp hmem with hmem | hmem
        · exact hno hmem
        · exact he (List.mem_singleton.mp hmem).symm
      rcases round_cases scope e with rfl | rfl | rfl | ⟨he, -, -, htrack⟩
      · exact absurd hstill hallowed
      · exact .inl ⟨Function.update_self .., hsnoc nofun⟩
      · exact .inr ⟨log, [], rfl, hno⟩
      · exact .inl ⟨(htrack m).trans hstill, hsnoc he⟩
    · exact .inr ⟨mid, rest ++ [e], by simp, hmid⟩

theorem paired_of_legal (h : Legal log) (hend : ∀ scope, stages log scope ≠ .done) :
    Paired log where
  started scope pre post hlog := by
    rw [hlog] at h
    obtain ⟨m, m', hpre, ⟨hallowed, -⟩, -⟩ := Run.split h
    exact startedSince_of_begun hpre hallowed
  ended scope pre post hlog := by
    subst hlog
    obtain ⟨m, m', -, ⟨-, rfl⟩, hpost⟩ := Run.split h
    rcases done_or_ended hpost (Function.update_self ..) with ⟨hdone, -⟩ | hended
    · exact absurd hdone (hend scope)
    · exact hended
  standing scope pre post hlog outer houter pre₁ pre₂ hpre := by
    rw [hlog] at h
    obtain ⟨m, m', hrun, ⟨hallowed, -⟩, -⟩ := Run.split h
    rw [hpre] at hrun
    obtain ⟨m₁, m₂, -, ⟨-, rfl⟩, hpost⟩ := Run.split hrun
    have hdown : (track m₁ (.afterAll outer) outer).torn = true := by
      rw [track, Function.update_self]
      rfl
    rcases torn_or_completed hpost hdown with htorn | hcompleted
    · rw [hallowed outer houter] at htorn
      cases htorn
    · exact hcompleted

end Tapsmith.Runner
