import Mathlib.Data.List.Basic

namespace Lib.Machine

/-!
# Runs of a state machine

A machine is a step relation between states; every step shows an event.  A run is a sequence
of steps together with the events it showed.

* `Run.split`, `Run.append_iff` — a run over a list of events splits where the list does;
* `Run.invariant` — what every step preserves, every run preserves;
* `Run.always`, `Run.before` — what an invariant says of all later, or of all earlier, events;
* `exists_run_stuck` — the runs of a machine that always comes to an end;
* `exec`, `run_of_foldlM` — the runs of a machine whose steps are computed.
-/

variable {σ ε ι : Type}

/-- The runs of `step` from a state: the events they show and the state they end in. -/
inductive Run (step : σ → ε → σ → Prop) (s₀ : σ) : List ε → σ → Prop
  | nil : Run step s₀ [] s₀
  | snoc {es : List ε} {s s' : σ} {e : ε} (hrun : Run step s₀ es s) (hstep : step s e s') :
      Run step s₀ (es ++ [e]) s'

variable {step : σ → ε → σ → Prop} {s₀ s : σ} {es fs : List ε}

/-! ### Taking runs apart -/

theorem Run.trans {s' : σ} (h : Run step s₀ es s) (h' : Run step s fs s') :
    Run step s₀ (es ++ fs) s' := by
  induction h' with
  | nil =>
    rw [List.append_nil]
    exact h
  | snoc _ hstep ih =>
    rw [← List.append_assoc]
    exact ih.snoc hstep

/-- A run may also be built from its first step. -/
theorem Run.cons {e : ε} {m : σ} (hstep : step s₀ e m) (h : Run step m es s) :
    Run step s₀ (e :: es) s :=
  (Run.nil.snoc hstep).trans h

/-- A run over two lists of events is a run over the first and then one over the second. -/
theorem Run.append_iff : Run step s₀ (es ++ fs) s ↔
    ∃ m, Run step s₀ es m ∧ Run step m fs s := by
  constructor
  · intro h
    generalize hall : es ++ fs = all at h
    induction h generalizing fs with
    | nil =>
      obtain ⟨rfl, rfl⟩ := List.append_eq_nil_iff.mp hall
      exact ⟨s₀, .nil, .nil⟩
    | @snoc all s s' e hrun hstep ih =>
      rcases List.eq_nil_or_concat fs with rfl | ⟨front, last, rfl⟩
      · rw [List.append_nil] at hall
        subst hall
        exact ⟨s', hrun.snoc hstep, .nil⟩
      · rw [List.concat_eq_append, ← List.append_assoc] at hall
        obtain ⟨rfl, hlast⟩ := List.append_inj' hall rfl
        obtain rfl := List.singleton_inj.mp hlast
        obtain ⟨m, h₁, h₂⟩ := ih rfl
        rw [List.concat_eq_append]
        exact ⟨m, h₁, h₂.snoc hstep⟩
  · rintro ⟨m, h₁, h₂⟩
    exact h₁.trans h₂

theorem Run.nil_iff : Run step s₀ [] s ↔ s = s₀ := by
  constructor
  · intro h
    generalize hnil : ([] : List ε) = all at h
    cases h with
    | nil => rfl
    | snoc hrun hstep => exact absurd hnil (by simp)
  · rintro rfl
    exact .nil

/-- The step that shows a given event of a run. -/
theorem Run.split {e : ε} (h : Run step s₀ (es ++ e :: fs) s) :
    ∃ m m', Run step s₀ es m ∧ step m e m' ∧ Run step m' fs s := by
  rw [List.append_cons, Run.append_iff] at h
  obtain ⟨m', h₁, h₂⟩ := h
  generalize hall : es ++ [e] = all at h₁
  cases h₁ with
  | nil => exact absurd hall (by simp)
  | snoc hrun hstep =>
    obtain ⟨rfl, hlast⟩ := List.append_inj' hall rfl
    obtain rfl := List.singleton_inj.mp hlast
    exact ⟨_, m', hrun, hstep, h₂⟩

/-- The first step of a run. -/
theorem Run.uncons {e : ε} (h : Run step s₀ (e :: es) s) :
    ∃ m, step s₀ e m ∧ Run step m es s := by
  obtain ⟨m, m', hnil, hstep, hrest⟩ := Run.split (show Run step s₀ ([] ++ e :: es) s from h)
  rw [Run.nil_iff] at hnil
  exact ⟨m', hnil ▸ hstep, hrest⟩

/-- A run in which every step keeps to `step'` is a run of `step'`. -/
theorem Run.mono {step' : σ → ε → σ → Prop} (himp : ∀ s e s', step s e s' → step' s e s')
    (h : Run step s₀ es s) : Run step' s₀ es s := by
  induction h with
  | nil => exact .nil
  | snoc _ hstep ih => exact ih.snoc (himp _ _ _ hstep)

/-! ### Invariants -/

/-- **Invariants.**  What every step preserves, every run preserves. -/
theorem Run.invariant {Inv : σ → Prop} (hpres : ∀ s e s', Inv s → step s e s' → Inv s')
    (h : Run step s₀ es s) (hinit : Inv s₀) : Inv s := by
  induction h with
  | nil => exact hinit
  | snoc _ hstep ih => exact hpres _ _ _ ih hstep

/-- The steps of a run may be taken to start in states with an invariant. -/
theorem Run.strengthen {Inv : σ → Prop} (hpres : ∀ s e s', Inv s → step s e s' → Inv s')
    (h : Run step s₀ es s) (hinit : Inv s₀) : Run (fun s e s' => Inv s ∧ step s e s') s₀ es s := by
  induction h with
  | nil => exact .nil
  | snoc hrun hstep ih => exact ih.snoc ⟨hrun.invariant hpres hinit, hstep⟩

/-- **From now on.**  A property that every step preserves, and that tells something of the
    event of every step from a state with it, tells it of every event of a run. -/
theorem Run.always {Inv : σ → Prop} {Q : ε → Prop}
    (hpres : ∀ s e s', Inv s → step s e s' → Inv s' ∧ Q e)
    (h : Run step s₀ es s) (hinit : Inv s₀) : ∀ e ∈ es, Q e := by
  induction h with
  | nil => exact fun e he => absurd he List.not_mem_nil
  | snoc hrun hstep ih =>
    intro e he
    rcases List.mem_append.mp he with he | he
    · exact ih e he
    · obtain rfl := List.mem_singleton.mp he
      exact (hpres _ _ _ (hrun.invariant (fun s e s' hs hst => (hpres s e s' hs hst).1) hinit)
        hstep).2

/-- **Up to now.**  The same, backwards. -/
theorem Run.before {Inv : σ → Prop} {Q : ε → Prop}
    (hpres : ∀ s e s', Inv s' → step s e s' → Inv s ∧ Q e)
    (h : Run step s₀ es s) (hend : Inv s) : ∀ e ∈ es, Q e := by
  induction h with
  | nil => exact fun e he => absurd he List.not_mem_nil
  | snoc hrun hstep ih =>
    have hlast := hpres _ _ _ hend hstep
    intro e he
    rcases List.mem_append.mp he with he | he
    · exact ih hlast.1 e he
    · obtain rfl := List.mem_singleton.mp he
      exact hlast.2

/-! ### Runs that end -/

/-- Where no run goes on for ever, some run goes on until nothing is possible any more. -/
theorem exists_run_stuck (hwf : WellFounded fun s' s => ∃ e, step s e s') (s₀ : σ) :
    ∃ es s, Run step s₀ es s ∧ ∀ e s', ¬ step s e s' := by
  induction s₀ using hwf.induction with
  | h s₀ ih =>
    by_cases hstuck : ∀ e s', ¬ step s₀ e s'
    · exact ⟨[], s₀, .nil, hstuck⟩
    · simp only [not_forall, not_not] at hstuck
      obtain ⟨e, m, hstep⟩ := hstuck
      obtain ⟨es, s, hrun, hend⟩ := ih m ⟨e, hstep⟩
      exact ⟨e :: es, s, .cons hstep hrun, hend⟩

/-! ### Computed runs -/

/-- The step relation of a computed step: some input leads there. -/
def Steps (f : σ → ι → Option (σ × ε)) (s : σ) (e : ε) (s' : σ) : Prop :=
  ∃ i, f s i = some (s', e)

/-- Run the inputs one after the other; `none` where one of them is not possible. -/
def exec (f : σ → ι → Option (σ × ε)) : σ → List ι → Option (σ × List ε)
  | s, [] => some (s, [])
  | s, i :: is =>
    (f s i).bind fun r => (exec f r.1 is).map fun q => (q.1, r.2 :: q.2)

theorem exec_append {f : σ → ι → Option (σ × ε)} {s : σ} {is js : List ι} :
    exec f s (is ++ js)
      = (exec f s is).bind fun r => (exec f r.1 js).map fun q => (q.1, r.2 ++ q.2) := by
  induction is generalizing s with
  | nil =>
    show exec f s js = (exec f s js).map id
    rw [Option.map_id]
    rfl
  | cons i is ih =>
    rw [List.cons_append, exec, exec]
    cases f s i with
    | none => rfl
    | some r =>
      rw [Option.bind_some, Option.bind_some, ih]
      cases exec f r.1 is with
      | none => rfl
      | some q =>
        rw [Option.bind_some, Option.map_some, Option.bind_some, Option.map_map]
        rfl

/-- What is computed is a run. -/
theorem exec_run {f : σ → ι → Option (σ × ε)} {is : List ι} {s' : σ}
    (h : exec f s₀ is = some (s', es)) : Run (Steps f) s₀ es s' := by
  induction is generalizing s₀ es with
  | nil =>
    cases h
    exact .nil
  | cons i is ih =>
    rw [exec, Option.bind_eq_some_iff] at h
    obtain ⟨r, hr, hq⟩ := h
    obtain ⟨q, hexec, heq⟩ := Option.map_eq_some_iff.mp hq
    cases heq
    exact .cons ⟨i, hr⟩ (ih hexec)

/-- The same for the events alone, which can be compared. -/
theorem exists_run_of_exec {f : σ → ι → Option (σ × ε)} {is : List ι}
    (h : (exec f s₀ is).map Prod.snd = some es) : ∃ s', Run (Steps f) s₀ es s' := by
  obtain ⟨⟨s', es'⟩, hexec, rfl⟩ := Option.map_eq_some_iff.mp h
  exact ⟨s', exec_run hexec⟩

/-- Where every event leads to one state at most, a run is computed from its events. -/
theorem run_of_foldlM {f : σ → ε → Option σ} (h : es.foldlM f s₀ = some s) :
    Run (fun s e s' => f s e = some s') s₀ es s := by
  induction es generalizing s₀ with
  | nil =>
    cases h
    exact .nil
  | cons e es ih =>
    rw [List.foldlM_cons, Option.bind_eq_bind, Option.bind_eq_some_iff] at h
    obtain ⟨m, hm, hrest⟩ := h
    exact .cons hm (ih hrest)

end Lib.Machine
