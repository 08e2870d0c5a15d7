import Tapsmith.Runner.Registered

namespace Tapsmith.Runner.Registered

open Lib
open Report (TestStatus)

/-!
# The planned first test

Before a block sets itself up it announces the test that is going to run first, with the policy that
this test runs under.

* `Call`, `tracedEnv` — what a run asks of its environment, kept in a list;
* `SetUpWell` — nothing that was asked before the first test body failed or skipped;
* `Leads` — what a part of the run does before its first test body, against what was planned for it;
* `plannedFirst_iff` — which plans the run keeps.
-/

variable {W H F : Type}

/-! ### Calls -/

/-- What a run asks of its environment and of its session, with the answer. -/
inductive Call (H F : Type)
  | capabilities (caps : ResetCapabilities)
  | hook (kind : HookKind) (hook : H) (outcome : HookOutcome)
  | reset (policy : AppResetPolicy) (done : Bool)
  | prepare (outcome : HookOutcome)
  | body (test : Planned F) (outcome : HookOutcome)
  | unhandled (found : Bool)
  | softErrors (found : Bool)

def Call.ranBody : Call H F → Option (Planned F)
  | .body test _ => some test
  | .capabilities _ | .hook _ _ _ | .reset _ _ | .prepare _ | .unhandled _ | .softErrors _ => none

def Call.read : Call H F → Option ResetCapabilities
  | .capabilities caps => some caps
  | .body _ _ | .hook _ _ _ | .reset _ _ | .prepare _ | .unhandled _ | .softErrors _ => none

/-- It is not part of a setup that failed or skipped.  Before the first test body promises are only
    looked at for the beforeAll hooks of a block. -/
def Call.endedWell : Call H F → Bool
  | .hook .beforeAll _ outcome | .hook .beforeEach _ outcome => outcome = .ok
  | .hook .afterEach _ _ | .hook .afterAll _ _ => true
  | .reset _ done => done
  | .prepare outcome => outcome = .ok
  | .unhandled found => !found
  | .capabilities _ | .body _ _ | .softErrors _ => true

/-- The call is made and kept in the list. -/
def traced {α : Type} (f : W → α × W) (call : α → Call H F) (w : W × List (Call H F)) :
    α × (W × List (Call H F)) :=
  ((f w.1).1, ((f w.1).2, w.2 ++ [call (f w.1).1]))

def tracedEnv (env : Env W H (Planned F)) : Env (W × List (Call H F)) H (Planned F) where
  hook kind hook := traced (env.hook kind hook) (.hook kind hook)
  reset policy := traced (env.reset policy) (.reset policy)
  prepare := traced env.prepare .prepare
  body test := traced (env.body test) (.body test)
  unhandled := traced env.unhandled .unhandled
  softErrors := traced env.softErrors .softErrors

/-- What the session knows is read, and stays what it is. -/
def tracedRead (capabilities : W → ResetCapabilities) (w : W × List (Call H F)) :
    ResetCapabilities × (W × List (Call H F)) :=
  traced (fun w => (capabilities w, w)) .capabilities w

/-- The calls of the run of a file. -/
def fileCalls (env : Env W H (Planned F)) (capabilities : W → ResetCapabilities)
    (opts : FileOptions) (ctx : RegisteredSuite H F) (world : W) : List (Call H F) :=
  (runFile (tracedEnv env) (tracedRead capabilities) opts ctx (world, [])).2.world.2

/-- The tests whose bodies ran, once for each time. -/
def executed (calls : List (Call H F)) : List (Planned F) := calls.filterMap Call.ranBody

def Call.opens (c : Call H F) : Bool := c.ranBody.isNone

/-- The calls before the first test body. -/
def opening (calls : List (Call H F)) : List (Call H F) := calls.takeWhile Call.opens

def SetUpWell (calls : List (Call H F)) : Prop := ∀ c ∈ opening calls, c.endedWell = true

/-- What was read last, and `caps` if nothing was. -/
def lastRead (caps : ResetCapabilities) (calls : List (Call H F)) : ResetCapabilities :=
  calls.foldl (fun caps c => c.read.getD caps) caps

section Lists

variable {calls calls' : List (Call H F)} {caps : ResetCapabilities}

theorem executed_append (calls calls' : List (Call H F)) :
    executed (calls ++ calls') = executed calls ++ executed calls' :=
  List.filterMap_append

theorem executed_eq_nil : executed calls = [] ↔ ∀ c ∈ calls, c.ranBody = none :=
  List.filterMap_eq_nil_iff

theorem opening_append_of_none (h : executed calls = []) :
    opening (calls ++ calls') = calls ++ opening calls' := by
  refine List.takeWhile_append_of_pos fun c hc => ?_
  rw [Call.opens, executed_eq_nil.mp h c hc]
  rfl

theorem opening_of_none (h : executed calls = []) : opening calls = calls := by
  have happend : opening (calls ++ []) = calls ++ opening [] := opening_append_of_none h
  rwa [List.append_nil, show opening ([] : List (Call H F)) = [] from rfl, List.append_nil]
    at happend

theorem opening_append_of_some (h : executed calls ≠ []) :
    opening (calls ++ calls') = opening calls := by
  induction calls with
  | nil => exact absurd rfl h
  | cons c calls ih =>
    show List.takeWhile _ (c :: (calls ++ calls')) = List.takeWhile _ (c :: calls)
    cases hc : c.ranBody with
    | some test =>
      have hran : ¬ c.opens = true := by simp [Call.opens, hc]
      rw [List.takeWhile_cons_of_neg hran, List.takeWhile_cons_of_neg hran]
    | none =>
      have hran : c.opens = true := by simp [Call.opens, hc]
      rw [List.takeWhile_cons_of_pos hran, List.takeWhile_cons_of_pos hran]
      refine congrArg _ (ih fun hnil => h ?_)
      rw [executed, List.filterMap_cons_none hc]
      exact hnil

theorem SetUpWell.left (h : SetUpWell (calls ++ calls')) : SetUpWell calls := by
  intro c hc
  by_cases hnone : executed calls = []
  · rw [opening_of_none hnone] at hc
    refine h c ?_
    rw [opening_append_of_none hnone]
    exact List.mem_append_left _ hc
  · have happend : opening (calls ++ calls') = opening calls := opening_append_of_some hnone
    rw [← happend] at hc
    exact h c hc

theorem SetUpWell.right (h : SetUpWell (calls ++ calls')) (hnone : executed calls = []) :
    SetUpWell calls' := by
  intro c hc
  refine h c ?_
  rw [opening_append_of_none hnone]
  exact List.mem_append_right _ hc

theorem lastRead_append (caps : ResetCapabilities) (calls calls' : List (Call H F)) :
    lastRead caps (calls ++ calls') = lastRead (lastRead caps calls) calls' :=
  List.foldl_append

theorem lastRead_of_none (h : ∀ c ∈ calls, c.read = none) : lastRead caps calls = caps := by
  induction calls with
  | nil => rfl
  | cons c calls ih =>
    show lastRead (c.read.getD caps) calls = caps
    rw [h c List.mem_cons_self]
    exact ih fun c' hc' => h c' (List.mem_cons_of_mem _ hc')

end Lists

/-! ### Setups -/

/-- Neither a test body nor what a block is resolved with. -/
def Call.plain (c : Call H F) : Prop := c.ranBody = none ∧ c.read = none

/-- The state of a run whose calls are kept. -/
abbrev Kept (W H F : Type) := State (W × List (Call H F))

variable {s s' s'' : Kept W H F} {r : HookOutcome × Kept W H F}
  {next : Kept W H F → HookOutcome × Kept W H F}

/-- Plain calls have been made. -/
def Plain (s s' : Kept W H F) : Prop :=
  ∃ new, s'.world.2 = s.world.2 ++ new ∧ ∀ c ∈ new, c.plain

theorem Plain.refl (s : Kept W H F) : Plain s s :=
  ⟨[], (List.append_nil _).symm, fun _ hc => absurd hc List.not_mem_nil⟩

theorem Plain.trans (h : Plain s s') (h' : Plain s' s'') : Plain s s'' := by
  obtain ⟨new, hnew, hplain⟩ := h
  obtain ⟨new', hnew', hplain'⟩ := h'
  refine ⟨new ++ new', by rw [hnew', hnew, List.append_assoc], fun c hc => ?_⟩
  rcases List.mem_append.mp hc with hc | hc
  · exact hplain c hc
  · exact hplain' c hc

theorem Plain.call {α : Type} (s : Kept W H F) (f : W → α × W) (call : α → Call H F)
    (h : ∀ a, (call a).plain) : Plain s (s.call (traced f call)).2 :=
  ⟨[_], rfl, fun c hc => by rw [List.mem_singleton.mp hc]; exact h _⟩

theorem Plain.foldl {α : Type} {f : Kept W H F → α → Kept W H F} (hf : ∀ s a, Plain s (f s a))
    (l : List α) (s : Kept W H F) : Plain s (l.foldl f s) := by
  induction l generalizing s with
  | nil => exact .refl s
  | cons a l ih => exact (hf s a).trans (ih (f s a))

/-- Plain calls have been made, and all is well unless one of them did not end well. -/
def Ends (s : Kept W H F) (r : HookOutcome × Kept W H F) : Prop :=
  ∃ new, r.2.world.2 = s.world.2 ++ new ∧ (∀ c ∈ new, c.plain) ∧
    (r.1 = .ok ∨ ∃ c ∈ new, c.endedWell = false)

namespace Ends

theorem ok (h : Plain s s') : Ends s (.ok, s') := by
  obtain ⟨new, hnew, hplain⟩ := h
  exact ⟨new, hnew, hplain, .inl rfl⟩

theorem plain (h : Ends s r) : Plain s r.2 := by
  obtain ⟨new, hnew, hplain, -⟩ := h
  exact ⟨new, hnew, hplain⟩

theorem after (hs : Plain s s') (h : Ends s' r) : Ends s r := by
  obtain ⟨new, hnew, hplain⟩ := hs
  obtain ⟨new', hnew', hplain', hend⟩ := h
  refine ⟨new ++ new', by rw [hnew', hnew, List.append_assoc], fun c hc => ?_, ?_⟩
  · rcases List.mem_append.mp hc with hc | hc
    · exact hplain c hc
    · exact hplain' c hc
  · refine hend.imp id fun ⟨c, hc, hbad⟩ => ⟨c, List.mem_append_right _ hc, hbad⟩

theorem andThen (h : Ends s r) (hnext : ∀ s', Ends s' (next s')) : Ends s (andThen r next) := by
  unfold Runner.andThen
  split
  case isTrue => exact .after h.plain (hnext r.2)
  case isFalse => exact h

theorem call {α : Type} (s : Kept W H F) (f : W → α × W) (call : α → Call H F)
    (hplain : ∀ a, (call a).plain) (outcome : α → HookOutcome)
    (h : ∀ a, outcome a = .ok ∨ (call a).endedWell = false) :
    Ends s (outcome (s.call (traced f call)).1, (s.call (traced f call)).2) := by
  refine ⟨[_], rfl, fun c hc => ?_, ?_⟩
  · rw [List.mem_singleton.mp hc]
    exact hplain _
  · refine (h (f s.world.1).1).imp id fun hbad => ⟨_, List.mem_singleton_self _, hbad⟩

variable (env : Env W H (Planned F))

theorem runHooks {kind : HookKind} (hkind : kind = .beforeAll ∨ kind = .beforeEach) (hooks : List H)
    (s : Kept W H F) : Ends s (runHooks (tracedEnv env) kind hooks s) := by
  induction hooks generalizing s with
  | nil => exact .ok (.refl s)
  | cons hook rest ih =>
    refine andThen (call s (env.hook kind hook) (.hook kind hook) (fun _ => ⟨rfl, rfl⟩) id fun a => ?_) ih
    rcases hkind with rfl | rfl <;> cases a <;> simp [Call.endedWell]

theorem runAppReset (policy : AppResetPolicy) (s : Kept W H F) :
    Ends s (runAppReset (tracedEnv env) policy s) := by
  have hcall : Ends s (if (s.call ((tracedEnv env).reset policy)).1 then .ok else .error,
      (s.call ((tracedEnv env).reset policy)).2) :=
    call s (env.reset policy) (.reset policy) (fun _ => ⟨rfl, rfl⟩)
      (fun done => if done then .ok else .error) fun done => by cases done <;> simp [Call.endedWell]
  unfold Runner.runAppReset
  dsimp only
  split
  case isTrue => exact .ok hcall.plain
  case isFalse hdone =>
    rwa [if_neg hdone] at hcall

theorem settle (h : Ends s r) : Ends s (settle (tracedEnv env) r) :=
  h.andThen fun s' => call s' env.unhandled .unhandled (fun _ => ⟨rfl, rfl⟩)
    (fun found => if found then .error else .ok) fun found => by cases found <;> simp [Call.endedWell]

theorem completeRound (path : List ℕ) (h : Ends s r) : Ends s (completeRound path r) :=
  h.andThen fun s' => .ok (.refl s')

theorem runAfterAll (path : List ℕ) (hooks : List H) (s : Kept W H F) :
    Plain s (runAfterAll (tracedEnv env) path hooks s) :=
  (Plain.refl s).trans <| .foldl
    (fun s' hook => .call s' (env.hook .afterAll hook) (.hook .afterAll hook) fun _ => ⟨rfl, rfl⟩)
      hooks _

theorem rebuildStep (step : ScopeRetryStep H) (s : Kept W H F) :
    Ends s (rebuildStep (tracedEnv env) step s) := by
  refine andThen ?_ fun s' => completeRound step.path <|
    .after (.refl s') (runHooks env (.inl rfl) step.beforeAll _)
  cases step.resetPolicy with
  | none => exact .ok (.refl s)
  | some policy => exact runAppReset env policy s

theorem runRetrySetup (chain : List (ScopeRetryStep H)) (s : Kept W H F) :
    Ends s (runRetrySetup (tracedEnv env) chain s) := by
  have hsteps : ∀ s', Ends s' (rebuildSteps (tracedEnv env) chain s') := by
    induction chain with
    | nil => exact fun s' => .ok (.refl s')
    | cons step rest ih => exact fun s' => andThen (rebuildStep env step s') ih
  have hteardown : Plain s (runRetryTeardown (tracedEnv env) chain s) :=
    (Plain.refl s).trans <| .foldl
      (fun s' (step : ScopeRetryStep H) => runAfterAll env step.path step.afterAll s') _ _
  refine .after hteardown ?_
  have hrebuilt := hsteps (runRetryTeardown (tracedEnv env) chain s)
  show Ends _ (runRetryRebuild (tracedEnv env) chain _)
  unfold runRetryRebuild
  dsimp only
  split
  case isTrue => exact .ok hrebuilt.plain
  case isFalse => exact hrebuilt

theorem runScopeSetup (scope : Scope H) (inherited : Inherited H) (fresh needsReset : Bool)
    (s : Kept W H F) : Ends s (runScopeSetup (tracedEnv env) scope inherited fresh needsReset s) := by
  refine andThen ?_ fun s => andThen ?_ fun s' => completeRound _
    (settle env (.after (.refl s') (runHooks env (.inl rfl) scope.beforeAll _)))
  · split
    · exact runRetrySetup env _ s
    · exact .ok (.refl s)
  · split
    · exact runAppReset env _ s
    · exact .ok (.refl s)

end Ends

/-! ### Attempts -/

/-- The body of the test has run, unless its setup did not end well, and no other body has. -/
def Attempts (test : Planned F) (s s' : Kept W H F) : Prop :=
  ∃ new, s'.world.2 = s.world.2 ++ new ∧
    (∀ c ∈ new, c.read = none ∧ ∀ test', c.ranBody = some test' → test' = test) ∧
      (SetUpWell new → executed new ≠ [])

namespace Attempts

variable {test : Planned F}

theorem andThen (h : Ends s r) (hnext : ∀ s', Attempts test s' (next s').2) :
    Attempts test s (andThen r next).2 := by
  obtain ⟨new, hnew, hplain, hend⟩ := h
  have hnone : executed new = [] := executed_eq_nil.mpr fun c hc => (hplain c hc).1
  have hown : ∀ c ∈ new, c.read = none ∧ ∀ test', c.ranBody = some test' → test' = test := by
    intro c hc
    refine ⟨(hplain c hc).2, fun test' hran => ?_⟩
    rw [(hplain c hc).1] at hran
    cases hran
  unfold Runner.andThen
  split
  case isTrue hok =>
    obtain ⟨new', hnew', hown', hran⟩ := hnext r.2
    refine ⟨new ++ new', by rw [hnew', hnew, List.append_assoc], fun c hc => ?_, fun hwell => ?_⟩
    · rcases List.mem_append.mp hc with hc | hc
      · exact hown c hc
      · exact hown' c hc
    · rw [executed_append, hnone]
      exact hran (hwell.right hnone)
  case isFalse hfailed =>
    refine ⟨new, hnew, hown, fun hwell => ?_⟩
    obtain ⟨c, hc, hbad⟩ := hend.resolve_left hfailed
    rw [SetUpWell, opening_of_none hnone] at hwell
    rw [hwell c hc] at hbad
    cases hbad

theorem then_ (h : Attempts test s s') {new' : List (Call H F)}
    (hnew' : s''.world.2 = s'.world.2 ++ new')
    (hown' : ∀ c ∈ new', c.read = none ∧ ∀ test', c.ranBody = some test' → test' = test) :
    Attempts test s s'' := by
  obtain ⟨new, hnew, hown, hran⟩ := h
  refine ⟨new ++ new', by rw [hnew', hnew, List.append_assoc], fun c hc => ?_, fun hwell => ?_⟩
  · rcases List.mem_append.mp hc with hc | hc
    · exact hown c hc
    · exact hown' c hc
  · rw [executed_append]
    exact List.append_ne_nil_of_left_ne_nil (hran hwell.left) _

theorem trans (h : Attempts test s s') (h' : Attempts test s' s'') : Attempts test s s'' := by
  obtain ⟨new', hnew', hown', -⟩ := h'
  exact h.then_ hnew' hown'

theorem after (h : Attempts test s s') (h' : Plain s' s'') : Attempts test s s'' := by
  obtain ⟨new', hnew', hplain'⟩ := h'
  refine h.then_ hnew' fun c hc => ⟨(hplain' c hc).2, fun test' hran => ?_⟩
  rw [(hplain' c hc).1] at hran
  cases hran

variable (env : Env W H (Planned F)) (run : ScopeRun H)

theorem attemptBody (attempt : ℕ) (s : Kept W H F) :
    Attempts test s (attemptBody (tracedEnv env) run test attempt s).2 := by
  refine andThen ?_ fun s => andThen ?_ fun s =>
    andThen (Ends.call s env.prepare .prepare (fun _ => ⟨rfl, rfl⟩) id fun outcome => ?_) fun s =>
      andThen (Ends.runHooks env (.inr rfl) run.allBeforeEach s) fun s => ⟨[_], rfl, ?_, ?_⟩
  · split
    · exact Ends.runRetrySetup env _ s
    · exact .ok (.refl s)
  · split
    · exact Ends.runAppReset env _ s
    · exact .ok (.refl s)
  · cases outcome <;> simp [Call.endedWell]
  · intro c hc
    rw [List.mem_singleton.mp hc]
    exact ⟨rfl, fun test' hran => (Option.some.inj hran).symm⟩
  · exact fun _ => List.cons_ne_nil _ _

theorem runAfterEach (hooks : List H) (status : TestStatus) (s : Kept W H F) :
    Plain s (runAfterEach (tracedEnv env) hooks status s).2 := by
  induction hooks generalizing status s with
  | nil => exact .refl s
  | cons hook rest ih =>
    exact (Plain.call s (env.hook .afterEach hook) (.hook .afterEach hook)
      fun _ => ⟨rfl, rfl⟩).trans (ih _ _)

theorem runAttempt (attempt : ℕ) (s : Kept W H F) :
    Attempts test s (runAttempt (tracedEnv env) run test attempt s).2 :=
  (attemptBody env run attempt s).after <|
    (runAfterEach env run.allAfterEach _ _).trans <|
      (Plain.call _ env.unhandled .unhandled fun _ => ⟨rfl, rfl⟩).trans <|
        Plain.call _ env.softErrors .softErrors fun _ => ⟨rfl, rfl⟩

theorem runAttempts (provisional : TestResult) (retries attempt : ℕ) (failedBefore : Bool)
    (s : Kept W H F) :
    Attempts test s
      (runAttempts (tracedEnv env) run test provisional retries attempt failedBefore s).2 := by
  induction retries generalizing attempt failedBefore s with
  | zero => exact runAttempt env run attempt s
  | succ retries ih =>
    have hattempt : Attempts test s _ := runAttempt env run attempt s
    unfold Runner.runAttempts
    dsimp only
    split
    · exact hattempt.trans (ih _ _ _)
    · exact hattempt

theorem runTest (opts : RunOptions) (entry : TestEntry (Planned F)) (s : Kept W H F) :
    Attempts entry.fn s (runTest (tracedEnv env) opts run entry s).2 := by
  have hattempts : Attempts entry.fn s _ := runAttempts env run
    { testResult opts run entry .failed with willRetry := true } run.scope.retries 0 false s
  unfold Runner.runTest
  dsimp only
  split
  · exact hattempts
  · exact hattempts

end Attempts

/-! ### What a part of a run leads with -/

/-- A body that ran was in a block that has a number of retries. -/
def Call.attempted (c : Call H F) : Prop :=
  ∀ test, c.ranBody = some test → test.config.retries.isSome = true

def Grown (s s' : Kept W H F) : Prop :=
  ∃ new, s'.world.2 = s.world.2 ++ new ∧ ∀ c ∈ new, c.attempted

/-- What happens from `s` to `s'`, where `planned` was to run first, if the setups before the first
    body end well: without a plan no body runs and nothing fails; otherwise the first body is that of
    the planned test, with the policy that follows from what was read last. -/
def Leads (caps : ResetCapabilities) (planned : Option (Planned F)) (s s' : Kept W H F)
    (results : List TestResult) : Prop :=
  ∃ new, s'.world.2 = s.world.2 ++ new ∧ (∀ c ∈ new, c.attempted) ∧
    (SetUpWell new → s.serial ≠ some true →
      (planned = none → executed new = [] ∧ s'.serial ≠ some true ∧
        ∀ r ∈ results, r.status ≠ .failed) ∧
      ∀ p, planned = some p → p.config.retries.isSome = true →
        (executed new).head? = some (p.under (lastRead caps (opening new))))

section Leads

variable {caps : ResetCapabilities} {planned planned' : Option (Planned F)} {test : Planned F}
  {results results' : List TestResult}

theorem attempted_of_plain {c : Call H F} (h : c.plain) : c.attempted := by
  intro test hran
  rw [h.1] at hran
  cases hran

theorem Plain.grown (h : Plain s s') : Grown s s' := by
  obtain ⟨new, hnew, hplain⟩ := h
  exact ⟨new, hnew, fun c hc => attempted_of_plain (hplain c hc)⟩

theorem Grown.trans (h : Grown s s') (h' : Grown s' s'') : Grown s s'' := by
  obtain ⟨new, hnew, hown⟩ := h
  obtain ⟨new', hnew', hown'⟩ := h'
  refine ⟨new ++ new', by rw [hnew', hnew, List.append_assoc], fun c hc => ?_⟩
  rcases List.mem_append.mp hc with hc | hc
  · exact hown c hc
  · exact hown' c hc

theorem Leads.grown (h : Leads caps planned s s' results) : Grown s s' := by
  obtain ⟨new, hnew, hown, -⟩ := h
  exact ⟨new, hnew, hown⟩

theorem Leads.of_plain (h : Plain s s') (hserial : s.serial ≠ some true → s'.serial ≠ some true)
    (hresults : ∀ r ∈ results, r.status ≠ .failed) : Leads caps none s s' results := by
  obtain ⟨new, hnew, hplain⟩ := h
  refine ⟨new, hnew, fun c hc => attempted_of_plain (hplain c hc), fun _ hs =>
    ⟨fun _ => ?_, fun p hp => absurd hp.symm (Option.some_ne_none p)⟩⟩
  exact ⟨executed_eq_nil.mpr fun c hc => (hplain c hc).1, hserial hs, hresults⟩

/-- In a serial group that failed before, nothing is said. -/
theorem Leads.of_serial (h : Grown s s') (hs : s.serial = some true) :
    Leads caps planned s s' results := by
  obtain ⟨new, hnew, hown⟩ := h
  exact ⟨new, hnew, hown, fun _ hne => absurd hs hne⟩

/-- Nor is anything said of a test without a number of retries. -/
theorem Leads.of_unattempted (h : Grown s s') (hretries : test.config.retries = none) :
    Leads caps (some test) s s' results := by
  obtain ⟨new, hnew, hown⟩ := h
  refine ⟨new, hnew, hown, fun _ _ => ⟨fun h => absurd h (Option.some_ne_none _),
    fun p hp hsome => ?_⟩⟩
  rw [← Option.some.inj hp, hretries] at hsome
  cases hsome

theorem Leads.append (h : Leads caps planned s s' results)
    (h' : ∀ caps, Leads caps planned' s' s'' results') :
    Leads caps (planned.or planned') s s'' (results ++ results') := by
  obtain ⟨new, hnew, hown, hlead⟩ := h
  obtain ⟨new', hnew', hown', hlead'⟩ := h' (lastRead caps new)
  refine ⟨new ++ new', by rw [hnew', hnew, List.append_assoc], fun c hc => ?_,
    fun hwell hs => ?_⟩
  · rcases List.mem_append.mp hc with hc | hc
    · exact hown c hc
    · exact hown' c hc
  · obtain ⟨hquiet, hfirst⟩ := hlead hwell.left hs
    cases planned with
    | none =>
      obtain ⟨hnone, hs', hresults⟩ := hquiet rfl
      obtain ⟨hquiet', hfirst'⟩ := hlead' (hwell.right hnone) hs'
      rw [executed_append, hnone, List.nil_append, opening_append_of_none hnone, lastRead_append]
      refine ⟨fun hplanned => ?_, hfirst'⟩
      obtain ⟨hnone', hs'', hresults'⟩ := hquiet' hplanned
      refine ⟨hnone', hs'', fun r hr => ?_⟩
      rcases List.mem_append.mp hr with hr | hr
      · exact hresults r hr
      · exact hresults' r hr
    | some test =>
      refine ⟨fun h => absurd h (Option.some_ne_none _), fun p hp hretries => ?_⟩
      have hhead := hfirst p hp hretries
      have hne : executed new ≠ [] := fun hnil => by rw [hnil] at hhead; cases hhead
      rw [executed_append, List.head?_append_of_ne_nil _ hne, opening_append_of_some hne]
      exact hhead

theorem Leads.cons {result : TestResult} (h : Leads caps planned s' s'' results)
    (hworld : s'.world = s.world) (hserial : s'.serial = s.serial)
    (hresult : result.status ≠ .failed) : Leads caps planned s s'' (result :: results) := by
  unfold Leads at h ⊢
  rw [hworld, hserial] at h
  obtain ⟨new, hnew, hown, hlead⟩ := h
  refine ⟨new, hnew, hown, fun hwell hs => ⟨fun hnone => ?_, (hlead hwell hs).2⟩⟩
  obtain ⟨hexecuted, hs', hresults⟩ := (hlead hwell hs).1 hnone
  exact ⟨hexecuted, hs', List.forall_mem_cons.mpr ⟨hresult, hresults⟩⟩

/-- What comes after the first body does not matter. -/
theorem Leads.then_ (h : Leads caps (some test) s s' results) (h' : Grown s' s'') :
    Leads caps (some test) s s'' results' := by
  obtain ⟨new, hnew, hown, hlead⟩ := h
  obtain ⟨new', hnew', hown'⟩ := h'
  refine ⟨new ++ new', by rw [hnew', hnew, List.append_assoc], fun c hc => ?_,
    fun hwell hs =>
      ⟨fun h => absurd h (Option.some_ne_none _), fun p hp hretries => ?_⟩⟩
  · rcases List.mem_append.mp hc with hc | hc
    · exact hown c hc
    · exact hown' c hc
  · have hhead := (hlead hwell.left hs).2 p hp hretries
    have hne : executed new ≠ [] := fun hnil => by rw [hnil] at hhead; cases hhead
    rw [executed_append, List.head?_append_of_ne_nil _ hne, opening_append_of_some hne]
    exact hhead

theorem Leads.of_attempts (h : Attempts test s s') (hretries : test.config.retries.isSome = true)
    (hunder : test.under caps = test) : Leads caps (some test) s s' results := by
  obtain ⟨new, hnew, hown, hran⟩ := h
  refine ⟨new, hnew, fun c hc test' htest => ?_, fun hwell _ =>
    ⟨fun h => absurd h (Option.some_ne_none _), fun p hp _ => ?_⟩⟩
  · rw [(hown c hc).2 test' htest]
    exact hretries
  · obtain rfl := Option.some.inj hp
    have hreads : lastRead caps (opening new) = caps :=
      lastRead_of_none fun c hc => (hown c ((List.takeWhile_sublist _).subset hc)).1
    rw [hreads, hunder]
    obtain ⟨test', rest, hexecuted⟩ := List.exists_cons_of_ne_nil (hran hwell)
    have hmem : test' ∈ executed new := by
      rw [hexecuted]
      exact List.mem_cons_self
    obtain ⟨c, hc, htest⟩ := List.mem_filterMap.mp hmem
    rw [hexecuted, (hown c hc).2 test' htest]
    rfl

/-- A block is entered: it is resolved with what is read, and sets itself up. -/
theorem Leads.entered {read : ResetCapabilities}
    (hread : s'.world.2 = s.world.2 ++ [.capabilities read]) (hsetup : Ends s' r)
    (hserial : s.serial ≠ some true → r.2.serial ≠ some true) (hgrown : Grown r.2 s'')
    (h : r.1 = .ok → Leads read planned r.2 s'' results) : Leads caps planned s s'' results := by
  obtain ⟨new, hnew, hplain, hend⟩ := hsetup
  have hnone : executed (.capabilities read :: new) = [] :=
    executed_eq_nil.mpr (List.forall_mem_cons.mpr ⟨rfl, fun c hc => (hplain c hc).1⟩)
  have hlast : lastRead caps (.capabilities read :: new) = read :=
    lastRead_of_none fun c hc => (hplain c hc).2
  have hcalls : r.2.world.2 = s.world.2 ++ (.capabilities read :: new) := by
    rw [hnew, hread, List.append_assoc]
    rfl
  have hown : ∀ c ∈ Call.capabilities read :: new, c.attempted :=
    List.forall_mem_cons.mpr ⟨fun test hran => absurd hran.symm (Option.some_ne_none test), fun c hc => attempted_of_plain (hplain c hc)⟩
  by_cases hok : r.1 = .ok
  · obtain ⟨new', hnew', hown', hlead⟩ := h hok
    refine ⟨.capabilities read :: new ++ new', by rw [hnew', hcalls, List.append_assoc],
      fun c hc => ?_, fun hwell hs => ?_⟩
    · rcases List.mem_append.mp hc with hc | hc
      · exact hown c hc
      · exact hown' c hc
    · rw [executed_append, hnone, List.nil_append, opening_append_of_none hnone, lastRead_append,
        hlast]
      exact hlead (hwell.right hnone) (hserial hs)
  · obtain ⟨new', hnew', hown'⟩ := hgrown
    refine ⟨.capabilities read :: new ++ new', by rw [hnew', hcalls, List.append_assoc],
      fun c hc => ?_, fun hwell _ => ?_⟩
    · rcases List.mem_append.mp hc with hc | hc
      · exact hown c hc
      · exact hown' c hc
    · obtain ⟨c, hc, hbad⟩ := hend.resolve_left hok
      have hgood : c.endedWell = true := by
        refine hwell c ?_
        rw [opening_append_of_none hnone]
        exact List.mem_append_left _ (List.mem_cons_of_mem _ hc)
      rw [hgood] at hbad
      cases hbad

end Leads

/-! ### Tests -/

section Tests

variable {env : Env W H (Planned F)} {opts : FileOptions} {policy : AppResetPolicy}
  {caps : ResetCapabilities} {run : ScopeRun H}

/-- The tests and the blocks of the scope are skipped. -/
def blocked (run : ScopeRun H) : Bool := run.scope.skipped || run.skippedByBeforeAll

/-- The test of the list that is to run first. -/
def plannedTest (opts : FileOptions) (policy : AppResetPolicy) (run : ScopeRun H)
    (tests : List (TestEntry F)) : Option (Planned F) :=
  if blocked run then none
  else
    (tests.find? fun entry => entry.included run.hasOnly &&
      opts.passesTestFilter (joinName run.fullPrefix entry.name)).map
        (plan opts policy run.fullPrefix)

theorem plannedTest_cons_of_pass {entry : TestEntry F} {rest : List (TestEntry F)}
    (hblocked : blocked run = false) (hincluded : entry.included run.hasOnly = true)
    (hpass : opts.passesTestFilter (joinName run.fullPrefix entry.name) = true) :
    plannedTest opts policy run (entry :: rest) = some (plan opts policy run.fullPrefix entry) := by
  rw [plannedTest, if_neg (by rw [hblocked]; exact Bool.false_ne_true),
    List.find?_cons_of_pos (by rw [hincluded, hpass]; rfl)]
  rfl

theorem plannedTest_cons_of_skip {entry : TestEntry F} {rest : List (TestEntry F)}
    (h : (blocked run || !entry.included run.hasOnly ||
      !opts.passesTestFilter (joinName run.fullPrefix entry.name)) = true) :
    plannedTest opts policy run (entry :: rest) = plannedTest opts policy run rest := by
  unfold plannedTest
  split
  case isTrue => rfl
  case isFalse hblocked =>
    rw [List.find?_cons_of_neg]
    intro hboth
    obtain ⟨hincluded, hpass⟩ := (Bool.and_eq_true _ _).mp hboth
    rw [hincluded, hpass, Bool.eq_false_iff.mpr hblocked] at h
    cases h

/-- A test that is skipped though no failure of a serial group skips it. -/
theorem skipsTest_of_clean {entry : TestEntry F} {s : Kept W H F} (hs : s.serial ≠ some true)
    (h : skipsTest run (resolveTest opts policy run.fullPrefix entry) s = true) :
    (blocked run || !entry.included run.hasOnly) = true := by
  unfold skipsTest at h
  have hserial : decide (s.serial = some true) = false := decide_eq_false hs
  rw [hserial, Bool.or_false, Bool.or_assoc, Bool.or_comm] at h
  exact h

theorem plan_under (hpolicy : policy.mode = resolveMode opts.config caps) (parentPrefix : String)
    (entry : TestEntry F) :
    (plan opts policy parentPrefix entry).under caps = plan opts policy parentPrefix entry := by
  show ({ entry := entry, fullName := joinName parentPrefix entry.name, config := opts.config
          policy := { policy with mode := resolveMode opts.config caps } } : Planned F) = _
  rw [← hpolicy]
  rfl

theorem runUnattempted_leads (hretries : opts.config.retries = none) (tests : List (TestEntry F))
    (s : Kept W H F) :
    let out := runUnattempted opts.toRunOptions run (tests.map (resolveTest opts policy
      run.fullPrefix)) s
    Leads caps (plannedTest opts policy run tests) s out.2 out.1 := by
  have hplain : ∀ (tests : List (TestEntry F)) (s : Kept W H F),
      let out := runUnattempted opts.toRunOptions run (tests.map (resolveTest opts policy
        run.fullPrefix)) s
      Plain s out.2 ∧ out.2.serial = s.serial ∧ ∀ r ∈ out.1, r.status ≠ .failed := by
    intro tests
    induction tests with
    | nil => exact fun s => ⟨.refl s, rfl, fun _ hr => absurd hr List.not_mem_nil⟩
    | cons entry rest ih =>
      intro s
      rw [List.map_cons]
      unfold runUnattempted
      dsimp only
      split
      case isTrue =>
        obtain ⟨hcalls, hserial, hresults⟩ := ih (s.report [_])
        refine ⟨hcalls, hserial, List.forall_mem_cons.mpr ⟨?_, hresults⟩⟩
        show (if _ then TestStatus.skipped else .passed) ≠ .failed
        split
        · exact fun h => by cases h
        · exact fun h => by cases h
      case isFalse => exact ih s
  intro out
  obtain ⟨hcalls, hserial, hresults⟩ := hplain tests s
  cases hplanned : plannedTest opts policy run tests with
  | none => exact .of_plain hcalls (fun hs => by rwa [hserial]) hresults
  | some test =>
    refine .of_unattempted hcalls.grown ?_
    unfold plannedTest at hplanned
    split at hplanned
    case isTrue => cases hplanned
    case isFalse =>
      obtain ⟨entry, -, rfl⟩ := Option.map_eq_some_iff.mp hplanned
      exact hretries

theorem runTests_leads (env : Env W H (Planned F)) (run : ScopeRun H)
    (hpolicy : policy.mode = resolveMode opts.config caps) (tests : List (TestEntry F))
    (s : Kept W H F) :
    let out := runTests (tracedEnv env) opts run (tests.map (resolveTest opts policy
      run.fullPrefix)) s
    Leads caps (plannedTest opts policy run tests) s out.2 out.1 := by
  unfold runTests
  split
  case isFalse hretries =>
    exact runUnattempted_leads (Option.not_isSome_iff_eq_none.mp hretries) tests s
  case isTrue hretries =>
    induction tests generalizing s with
    | nil =>
      have hnone : plannedTest opts policy run ([] : List (TestEntry F)) = none := by
        unfold plannedTest
        split <;> rfl
      rw [hnone]
      exact .of_plain (.refl s) id fun _ hr => absurd hr List.not_mem_nil
    | cons entry rest ih =>
      rw [List.map_cons]
      unfold Runner.runTests
      dsimp only
      split
      case isFalse hpass =>
        have hpass : opts.passesTestFilter (joinName run.fullPrefix entry.name) = false :=
          Bool.eq_false_iff.mpr hpass
        rw [plannedTest_cons_of_skip (by rw [hpass, Bool.not_false, Bool.or_true])]
        exact ih s
      case isTrue hpass =>
        split
        case isTrue hskip =>
          have hlater := ih (s.report [testResult opts.toRunOptions run
            (resolveTest opts policy run.fullPrefix entry) .skipped])
          by_cases hs : s.serial = some true
          · exact .of_serial hlater.grown hs
          · rw [plannedTest_cons_of_skip (by rw [skipsTest_of_clean hs hskip, Bool.true_or])]
            exact hlater.cons rfl rfl fun h => by cases h
        case isFalse hruns =>
          have hruns : skipsTest run (resolveTest opts policy run.fullPrefix entry) s = false :=
            Bool.eq_false_iff.mpr hruns
          simp only [skipsTest, Bool.or_eq_false_iff, Bool.not_eq_false'] at hruns
          obtain ⟨⟨⟨hincluded, hskipped⟩, hbeforeAll⟩, -⟩ := hruns
          have hblocked : blocked run = false := by rw [blocked, hskipped, hbeforeAll]; rfl
          have hplanned : plannedTest opts policy run (entry :: rest) =
              some (plan opts policy run.fullPrefix entry) :=
            plannedTest_cons_of_pass hblocked hincluded hpass
          have hlead : Leads caps (some (plan opts policy run.fullPrefix entry)) s
              (runTest (tracedEnv env) opts.toRunOptions run
                (resolveTest opts policy run.fullPrefix entry) s).2 [] :=
            .of_attempts (Attempts.runTest env run opts.toRunOptions _ s) hretries
              (plan_under hpolicy run.fullPrefix entry)
          rw [hplanned]
          exact hlead.then_ (ih _).grown

end Tests

/-! ### Blocks -/

theorem policy_under {use : UseOptions} {opts : FileOptions} {policy : AppResetPolicy}
    (mode : AppResetMode) (caps caps' : ResetCapabilities) :
    resolveScope use opts (some { policy with mode := mode }) caps' =
      ((resolveScope use opts (some policy) caps).1,
        { (resolveScope use opts (some policy) caps).2 with
          mode := resolveMode (resolveScope use opts (some policy) caps).1.config caps' }) :=
  rfl

mutual

/-- The same test is planned whatever the session knows, with a policy that follows from that. -/
theorem firstRunnableTest_under (opts : FileOptions) (policy : AppResetPolicy)
    (caps caps' : ResetCapabilities) (parentPrefix : String) : ∀ ctx : RegisteredSuite H F,
    firstRunnableTest opts { policy with mode := resolveMode opts.config caps' } caps' parentPrefix
        ctx =
      (firstRunnableTest opts policy caps parentPrefix ctx).map (·.under caps')
  | .mk registration tests suites => by
    unfold firstRunnableTest
    split
    case isTrue => rfl
    case isFalse =>
      rw [firstRunnableSuite_under opts policy _ caps caps' parentPrefix _ suites, Option.map_or,
        Option.map_map]
      rfl

theorem firstRunnableSuite_under (opts : FileOptions) (policy : AppResetPolicy)
    (mode : AppResetMode) (caps caps' : ResetCapabilities) (parentPrefix : String)
    (excluded : RegisteredSuite H F → Bool) : ∀ suites : List (RegisteredSuite H F),
    firstRunnableSuite opts { policy with mode := mode } caps' parentPrefix excluded suites =
      (firstRunnableSuite opts policy caps parentPrefix excluded suites).map (·.under caps')
  | [] => rfl
  | child :: rest => by
    have hrest := firstRunnableSuite_under opts policy mode caps caps' parentPrefix excluded rest
    unfold firstRunnableSuite
    dsimp only
    split
    case isTrue => exact hrest
    case isFalse =>
      rw [hrest, policy_under mode caps caps', firstRunnableTest_under _ _ caps caps', Option.map_or]

end

section Blocks

variable {caps : ResetCapabilities} {planned : Option (Planned F)}

/-- When the test was planned does not matter. -/
theorem Leads.of_under {results : List TestResult} (caps' : ResetCapabilities)
    (h : Leads caps (planned.map (·.under caps')) s s' results) :
    Leads caps planned s s' results := by
  obtain ⟨new, hnew, hown, hlead⟩ := h
  refine ⟨new, hnew, hown, fun hwell hs => ?_⟩
  obtain ⟨hquiet, hfirst⟩ := hlead hwell hs
  refine ⟨fun hnone => hquiet (by rw [hnone]; rfl), fun p hp hretries => ?_⟩
  exact hfirst (p.under caps') (by rw [hp]; rfl) hretries

theorem noteChild_leads {out : SuiteResult × Kept W H F}
    (h : Leads caps planned s out.2 (collectResults out.1)) :
    Leads caps planned s (noteChild out).2 (collectResults (noteChild out).1) := by
  obtain ⟨new, hnew, hown, hlead⟩ := h
  unfold noteChild
  dsimp only
  split
  case isFalse => exact ⟨new, hnew, hown, hlead⟩
  case isTrue hfailed =>
    refine ⟨new, hnew, hown, fun hwell hs => ⟨fun hnone => ?_, (hlead hwell hs).2⟩⟩
    obtain ⟨-, -, hresults⟩ := (hlead hwell hs).1 hnone
    obtain ⟨r, hr, hstatus⟩ := List.any_eq_true.mp hfailed
    exact absurd (of_decide_eq_true hstatus) (hresults r hr)

/-- The block of the child that is to run first, if a test of it is. -/
def plannedSuite (opts : FileOptions) (run : ScopeRun H) (read : ResetCapabilities)
    (excluded : RegisteredSuite H F → Bool) (suites : List (RegisteredSuite H F)) :
    Option (Planned F) :=
  if blocked run then none
  else firstRunnableSuite opts run.scope.policy read run.fullPrefix excluded suites

theorem hasOnlyTests_resolve (opts : FileOptions) (policy : AppResetPolicy) (parentPrefix : String)
    (tests : List (TestEntry F)) :
    hasOnlyTests (tests.map (resolveTest opts policy parentPrefix)) = hasOnlyTests tests :=
  List.any_map

theorem any_only_resolve (opts : FileOptions) (policy : AppResetPolicy) (read : ResetCapabilities)
    (parentPrefix : String) (suites : List (RegisteredSuite H F)) :
    (resolveAll opts policy read parentPrefix suites).any (·.label.only) =
      suites.any (·.label.only) := by
  rw [resolveAll_eq_map, List.any_map]
  congr 1
  funext child
  obtain ⟨registration, tests, suites⟩ := child
  rfl

theorem hasOnly_resolve (opts : FileOptions) (policy : AppResetPolicy) (read : ResetCapabilities)
    (parentPrefix : String) (tests : List (TestEntry F)) (suites : List (RegisteredSuite H F)) :
    Runner.hasOnly (tests.map (resolveTest opts policy parentPrefix))
      (resolveAll opts policy read parentPrefix suites) = hasOnly tests suites := by
  unfold Runner.hasOnly hasOnly
  rw [hasOnlyTests_resolve, any_only_resolve]

theorem excluded_resolve (opts : FileOptions) (policy : AppResetPolicy) (read : ResetCapabilities)
    (parentPrefix : String) (tests : List (TestEntry F)) (suites : List (RegisteredSuite H F))
    (child : RegisteredSuite H F) :
    Runner.excluded (tests.map (resolveTest opts policy parentPrefix))
        (resolveAll opts policy read parentPrefix suites)
        (resolveChild opts policy read parentPrefix child) = excluded tests suites child := by
  unfold Runner.excluded excluded
  rw [hasOnlyTests_resolve, hasOnly_resolve]
  obtain ⟨registration, tests', suites'⟩ := child
  rfl

/-- Groups are entered and left without a call. -/
theorem enterGroup_plain (scope : Scope H) (s : Kept W H F) : Plain s (enterGroup scope s) := by
  unfold enterGroup
  split
  · exact .refl s
  · exact .refl s

theorem enterGroup_serial (scope : Scope H) {s : Kept W H F} (hs : s.serial ≠ some true) :
    (enterGroup scope s).serial ≠ some true := by
  unfold enterGroup
  split
  · exact fun h => by cases h
  · exact hs

theorem leaveGroup_plain (outer : Option Bool) (s : Kept W H F) : Plain s (leaveGroup outer s) := by
  unfold leaveGroup
  split
  · exact .refl s
  · exact .refl s

theorem leaveGroup_serial (outer : Option Bool) {s : Kept W H F} (hs : s.serial ≠ some true) :
    (leaveGroup outer s).serial ≠ some true := by
  unfold leaveGroup
  split
  · exact fun h => by cases h
  · exact hs

section Entering

variable {env : Env W H (Planned F)} {opts : RunOptions} {ctx : SuiteContext H (Planned F)}
  {inherited : Inherited H} {run : ScopeRun H}

theorem setUpScope_ends (env : Env W H (Planned F)) (opts : RunOptions)
    (ctx : SuiteContext H (Planned F)) (inherited : Inherited H) (s : Kept W H F) :
    Ends s (setUpScope (tracedEnv env) opts ctx inherited s) := by
  unfold setUpScope
  split
  · exact .after (enterGroup_plain _ _) (Ends.runScopeSetup env _ _ _ _ _)
  · exact .ok (enterGroup_plain _ _)

theorem setUpScope_serial (hs : s.serial ≠ some true) :
    (setUpScope (tracedEnv env) opts ctx inherited s).2.serial ≠ some true := by
  rw [setUpScope_unreported.serial]
  exact enterGroup_serial _ hs

theorem setUpScope_of_failed (h : entered (tracedEnv env) opts ctx inherited s = .error s') :
    (setUpScope (tracedEnv env) opts ctx inherited s).2 = s' ∧
      (setUpScope (tracedEnv env) opts ctx inherited s).1 ≠ .ok := by
  unfold entered at h
  dsimp only at h
  split at h
  case isTrue => cases h
  case isFalse hsetup => exact ⟨Except.error.inj h, fun hok => hsetup (.inl hok)⟩

theorem setUpScope_of_entered (h : entered (tracedEnv env) opts ctx inherited s = .ok (run, s')) :
    (setUpScope (tracedEnv env) opts ctx inherited s).2 = s' ∧
      run.hasOnly = Runner.hasOnly ctx.own ctx.groups ∧
      ((setUpScope (tracedEnv env) opts ctx inherited s).1 = .ok →
        run.skippedByBeforeAll = false) := by
  unfold entered at h
  dsimp only at h
  split at h
  case isFalse => cases h
  case isTrue =>
    obtain ⟨rfl, rfl⟩ := Prod.mk.inj (Except.ok.inj h)
    refine ⟨rfl, rfl, fun hok => decide_eq_false ?_⟩
    rw [hok]
    exact fun h => by cases h

theorem finishScope_plain (env : Env W H (Planned F)) (opts : RunOptions)
    (ctx : SuiteContext H (Planned F)) (inherited : Inherited H) (s : Kept W H F) :
    Plain s (finishScope (tracedEnv env) opts ctx inherited s) ∧
      (finishScope (tracedEnv env) opts ctx inherited s).serial = s.serial := by
  unfold finishScope
  split
  · exact ⟨Ends.runAfterAll env _ _ s, (runAfterAll_log _ _ _ s).2⟩
  · exact ⟨.refl s, rfl⟩

end Entering

theorem Leads.after {results : List TestResult} (h : Leads caps planned s s' results)
    (h' : Plain s' s'') (hserial : s'.serial ≠ some true → s''.serial ≠ some true) :
    Leads caps planned s s'' results := by
  have hquiet : ∀ caps, Leads caps none s' s'' [] := fun _ =>
    .of_plain h' hserial fun _ hr => absurd hr List.not_mem_nil
  have hboth := h.append hquiet
  rwa [Option.or_none, List.append_nil] at hboth

/-- Where its beforeAll hooks do not skip it, a block runs what was planned. -/
theorem or_plannedSuite {opts : FileOptions} {policy : AppResetPolicy}
    {registration : Registration H} {tests : List (TestEntry F)} {run : ScopeRun H}
    (read : ResetCapabilities) (suites : List (RegisteredSuite H F))
    (hscope : run.scope = scope registration opts policy) (hhasOnly : run.hasOnly = hasOnly tests suites)
    (hskipped : run.skippedByBeforeAll = false) :
    (plannedTest opts policy run tests).or
        (plannedSuite opts run read (excluded tests suites) suites) =
      firstRunnableTest opts policy read run.fullPrefix (.mk registration tests suites) := by
  have hblocked : blocked run = registration.skipped := by
    rw [blocked, hskipped, hscope, Bool.or_false]
    rfl
  unfold plannedTest plannedSuite firstRunnableTest
  rw [hblocked, hhasOnly, hscope]
  split
  · rfl
  · rfl

mutual

theorem runSuiteContext_leads (env : Env W H (Planned F)) (capabilities : W → ResetCapabilities) :
    ∀ (ctx : RegisteredSuite H F) (parentOpts : FileOptions) (inherited : Inherited H)
      (s₀ : Kept W H F) (inner : FileOptions × AppResetPolicy),
      resolveScope ctx.label.useOptions parentOpts inherited.parentPolicy
        (capabilities s₀.world.1) = inner →
      ∀ caps : ResetCapabilities,
      let out := runSuiteContext (tracedEnv env) (tracedRead capabilities) ctx parentOpts inherited
        s₀
      Leads caps (firstRunnableTest inner.1 inner.2 (capabilities s₀.world.1)
        inherited.fullPrefix ctx) s₀ out.2 (collectResults out.1)
  | .mk registration tests suites, parentOpts, inherited, s₀, inner, hinner, caps => by
    let read := capabilities s₀.world.1
    let s₁ : Kept W H F := (s₀.call (tracedRead capabilities)).2
    obtain ⟨resolved, hresolved⟩ : ∃ resolved, resolve inner.1 inner.2 read inherited.fullPrefix
        (.mk registration tests suites) = resolved := ⟨_, rfl⟩
    have hpolicy : inner.2.mode = resolveMode inner.1.config read := by
      rw [← hinner]
      rfl
    have hread : s₁.world.2 = s₀.world.2 ++ [.capabilities read] := rfl
    have hsetup := setUpScope_ends env inner.1.toRunOptions resolved inherited s₁
    have hserial : s₀.serial ≠ some true →
        (setUpScope (tracedEnv env) inner.1.toRunOptions resolved inherited s₁).2.serial ≠
          some true := fun hs => setUpScope_serial hs
    cases hentered : entered (tracedEnv env) inner.1.toRunOptions resolved inherited s₁ with
    | error s =>
      have hrun := runSuiteContext_of_failed (tracedRead capabilities) hinner hresolved hentered
      obtain ⟨rfl, hfailed⟩ := setUpScope_of_failed hentered
      rw [hrun]
      refine .entered hread hsetup hserial ?_ fun hok => absurd hok hfailed
      exact ((Plain.refl _).trans (leaveGroup_plain _ _)).grown
    | ok entry =>
      obtain ⟨run, s⟩ := entry
      have hrun := runSuiteContext_of_entered (tracedRead capabilities) hinner hresolved hentered
      obtain ⟨hscope, -, hfull, -⟩ := entered_ok hentered
      obtain ⟨rfl, hhasOnly, hskipped⟩ := setUpScope_of_entered hentered
      subst hresolved
      let s := (setUpScope (tracedEnv env) inner.1.toRunOptions
        (resolve inner.1 inner.2 read inherited.fullPrefix (.mk registration tests suites))
        inherited s₁).2
      let resolvedTests := tests.map (resolveTest inner.1 inner.2 inherited.fullPrefix)
      let excluded' := Runner.excluded resolvedTests
        (resolveAll inner.1 inner.2 read inherited.fullPrefix suites)
      let ran := runTests (tracedEnv env) inner.1 run resolvedTests s
      let nested := runSuites (tracedEnv env) (tracedRead capabilities) inner.1 run
        (resolveChild inner.1 inner.2 read inherited.fullPrefix) excluded' suites 0 ran.2
      have hrunPolicy : run.scope.policy = inner.2 := by
        rw [hscope]
        rfl
      have htests : Leads read (plannedTest inner.1 inner.2 run tests) s ran.2 ran.1 := by
        have htests := runTests_leads env run hpolicy tests s
        rwa [hfull] at htests
      have hsuites : ∀ caps, Leads caps
          (plannedSuite inner.1 run read (excluded tests suites) suites) ran.2 nested.2
          (Group.leavesAll nested.1) := by
        intro caps
        have hsuites := runSuites_leads env capabilities inner.1 run read excluded'
          (excluded tests suites) (fun child => by
            rw [hrunPolicy, hfull]
            exact excluded_resolve inner.1 inner.2 read inherited.fullPrefix tests suites child)
          suites 0 ran.2 caps
        rwa [hrunPolicy, hfull] at hsuites
      have hboth := htests.append hsuites
      obtain ⟨hfinish, hfinishSerial⟩ := finishScope_plain env inner.1.toRunOptions
        (resolve inner.1 inner.2 read inherited.fullPrefix (.mk registration tests suites))
        inherited nested.2
      have hend := hboth.after (hfinish.trans (leaveGroup_plain s₀.serial _)) fun hs =>
        leaveGroup_serial s₀.serial (by rwa [hfinishSerial])
      rw [hrun]
      refine .entered hread hsetup hserial hend.grown fun hok => ?_
      have hplanned := or_plannedSuite read suites hscope
        (hhasOnly.trans (hasOnly_resolve inner.1 inner.2 read inherited.fullPrefix tests suites))
        (hskipped hok)
      rw [hplanned, hfull] at hend
      exact hend

theorem runSuites_leads (env : Env W H (Planned F)) (capabilities : W → ResetCapabilities)
    (opts : FileOptions) (run : ScopeRun H) (read : ResetCapabilities)
    (excluded' : SuiteContext H (Planned F) → Bool) (excluded : RegisteredSuite H F → Bool)
    (hexcluded : ∀ child, excluded' (resolveChild opts run.scope.policy read run.fullPrefix child) =
      excluded child) :
    ∀ (suites : List (RegisteredSuite H F)) (i : ℕ) (s : Kept W H F) (caps : ResetCapabilities),
      let out := runSuites (tracedEnv env) (tracedRead capabilities) opts run
        (resolveChild opts run.scope.policy read run.fullPrefix) excluded' suites i s
      Leads caps (plannedSuite opts run read excluded suites) s out.2 (Group.leavesAll out.1)
  | [], i, s, caps => by
    have hnone : plannedSuite opts run read excluded [] = none := by
      unfold plannedSuite
      split <;> rfl
    rw [hnone]
    exact .of_plain (.refl s) id fun _ hr => absurd hr List.not_mem_nil
  | child :: rest, i, s, caps => by
    let childPrefix := joinName run.fullPrefix child.label.name
    let resolved := resolveChild opts run.scope.policy read run.fullPrefix child
    let skipped := skipAll opts.toRunOptions childPrefix resolved
    let out : SuiteResult × Kept W H F :=
      if excluded' resolved then (skipped, s)
      else if s.serial = some true || run.scope.skipped || run.skippedByBeforeAll then
        (stampSkipped opts.toRunOptions skipped,
          s.report (collectResults (stampSkipped opts.toRunOptions skipped)))
      else
        noteChild (runSuiteContext (tracedEnv env) (tracedRead capabilities) child opts
          (run.inherited i child.label.name) s)
    let first : Option (Planned F) :=
      if blocked run || excluded child then none
      else
        firstRunnableTest (resolveScope child.label.useOptions opts (some run.scope.policy) read).1
          (resolveScope child.label.useOptions opts (some run.scope.policy) read).2 read childPrefix
          child
    have hskipped : ∀ r ∈ collectResults skipped, r.status ≠ .failed :=
      skipAll_not_failed childPrefix resolved
    have hfirst : Leads caps first s out.2 (collectResults out.1) := by
      by_cases hex : excluded' resolved = true
      · have hnone : first = none := if_pos (by rw [← hexcluded, hex, Bool.or_true])
        rw [hnone, show out = (skipped, s) from if_pos hex]
        exact .of_plain (.refl s) id hskipped
      · by_cases hstop : (s.serial = some true || run.scope.skipped || run.skippedByBeforeAll) = true
        · rw [show out = _ from (if_neg hex).trans (if_pos hstop)]
          have hstamped : ∀ r ∈ collectResults (stampSkipped opts.toRunOptions skipped),
              r.status ≠ .failed := by
            intro r hr hfailed
            have hskip := (stampSkipped_skipped opts.toRunOptions childPrefix resolved r hr).2
            rw [hskip] at hfailed
            cases hfailed
          by_cases hs : s.serial = some true
          · exact .of_serial (Plain.refl s).grown hs
          · have hblocked : blocked run = true := by
              rw [decide_eq_false hs, Bool.false_or] at hstop
              exact hstop
            have hnone : first = none := if_pos (by rw [hblocked, Bool.true_or])
            rw [hnone]
            exact .of_plain (.refl s) id hstamped
        · rw [show out = _ from (if_neg hex).trans (if_neg hstop)]
          have hblocked : blocked run = false := by
            simp only [Bool.or_eq_true, not_or, Bool.not_eq_true] at hstop
            rw [blocked, hstop.1.2, hstop.2]
            rfl
          have hchild : first = _ := if_neg (by
            rw [hblocked, ← hexcluded, Bool.false_or]
            exact hex)
          rw [hchild]
          refine noteChild_leads (Leads.of_under (capabilities s.world.1) ?_)
          rw [← firstRunnableTest_under]
          exact runSuiteContext_leads env capabilities child opts
            (run.inherited i child.label.name) s _ rfl caps
    have hplanned : plannedSuite opts run read excluded (child :: rest) =
        first.or (plannedSuite opts run read excluded rest) := by
      show (if blocked run then none else _) = (if blocked run || excluded child then none else _).or
        (if blocked run then none else _)
      cases blocked run with
      | true => rfl
      | false =>
        cases hex : excluded child with
        | true => exact if_pos hex
        | false =>
          have hne : ¬ excluded child = true := by
            rw [hex]
            exact Bool.false_ne_true
          exact if_neg hne
    rw [hplanned]
    exact hfirst.append fun caps =>
      runSuites_leads env capabilities opts run read excluded' excluded hexcluded rest (i + 1) out.2
        caps

end

end Blocks

/-! ### Files -/

/-- The mode depends on whether the session knows of the reset hooks. -/
def dependsOnHooks (config : Config) : Bool :=
  config.appReset.getD .auto = .auto && !truthy config.resetAppDeepLink

theorem resolveMode_eq_iff (config : Config) (caps caps' : ResetCapabilities) :
    resolveMode config caps = resolveMode config caps' ↔
      (dependsOnHooks config = true →
        (caps.hooksDetected = some true ↔ caps'.hooksDetected = some true)) := by
  unfold resolveMode dependsOnHooks
  cases config.appReset.getD .auto with
  | mode mode => simp
  | auto =>
    cases truthy config.resetAppDeepLink with
    | true => simp
    | false =>
      by_cases h : caps.hooksDetected = some true <;>
        by_cases h' : caps'.hooksDetected = some true <;> simp [h, h']

/-- The test that is planned as a file is entered. -/
def plannedFile (opts : FileOptions) (ctx : RegisteredSuite H F) (caps : ResetCapabilities) :
    Option (Planned F) :=
  let inner := resolveScope ctx.label.useOptions opts none caps
  firstRunnableTest inner.1 inner.2 caps "" ctx

/-- The test that is planned is the one whose body runs first, with the policy it is planned with;
    if none is planned, no body runs. -/
def PlannedFirst (env : Env W H (Planned F)) (capabilities : W → ResetCapabilities)
    (opts : FileOptions) (ctx : RegisteredSuite H F) (world : W) : Prop :=
  plannedFile opts ctx (capabilities world) =
    (executed (fileCalls env capabilities opts ctx world)).head?

theorem plannedFile_under (opts : FileOptions) (ctx : RegisteredSuite H F)
    (caps : ResetCapabilities) :
    plannedFile opts ctx caps = (plannedFile opts ctx caps).map (·.under caps) :=
  firstRunnableTest_under _ (resolveScope ctx.label.useOptions opts none caps).2 caps caps "" ctx

/-- **The planned first test runs first**, where the setups before it end well, exactly if it has a
    number of retries, and the session knew of the hooks when it was planned just if it does when its
    block is entered, should the mode depend on that. -/
theorem plannedFirst_iff (env : Env W H (Planned F)) (capabilities : W → ResetCapabilities)
    (opts : FileOptions) (ctx : RegisteredSuite H F) (world : W)
    (hwell : SetUpWell (fileCalls env capabilities opts ctx world)) :
    PlannedFirst env capabilities opts ctx world ↔
      ∀ p, plannedFile opts ctx (capabilities world) = some p → p.config.retries ≠ none ∧
        (dependsOnHooks p.config = true → ((capabilities world).hooksDetected = some true ↔
          (lastRead (capabilities world)
            (opening (fileCalls env capabilities opts ctx world))).hooksDetected = some true)) := by
  have hleads := runSuiteContext_leads env capabilities ctx opts {} { world := (world, []) } _ rfl
    (capabilities world)
  obtain ⟨new, hnew, hown, hlead⟩ := hleads
  obtain rfl : fileCalls env capabilities opts ctx world = new := hnew
  obtain ⟨hquiet, hfirst⟩ := hlead hwell fun h => by cases h
  change plannedFile opts ctx (capabilities world) = none → _ at hquiet
  change ∀ p, plannedFile opts ctx (capabilities world) = some p → _ at hfirst
  unfold PlannedFirst
  cases hplanned : plannedFile opts ctx (capabilities world) with
  | none =>
    rw [(hquiet hplanned).1]
    exact iff_of_true rfl fun p hp => absurd hp.symm (Option.some_ne_none p)
  | some p =>
    have hunder := plannedFile_under opts ctx (capabilities world)
    rw [hplanned, Option.map_some, Option.some.injEq] at hunder
    cases hretries : p.config.retries with
    | none =>
      refine iff_of_false (fun hhead => ?_) fun h => (h p rfl).1 hretries
      obtain ⟨c, hc, hran⟩ := List.mem_filterMap.mp (List.mem_of_mem_head? hhead.symm)
      have hsome := hown c hc p hran
      rw [hretries] at hsome
      cases hsome
    | some retries =>
      rw [hfirst p hplanned (by rw [hretries]; rfl), Option.some.injEq]
      have hmode : p = p.under (lastRead (capabilities world)
          (opening (fileCalls env capabilities opts ctx world))) ↔
          resolveMode p.config (capabilities world) = resolveMode p.config (lastRead
            (capabilities world) (opening (fileCalls env capabilities opts ctx world))) := by
        constructor
        · intro h
          exact congrArg (fun p : Planned F => p.policy.mode) (hunder.symm.trans h)
        · intro h
          refine hunder.trans ?_
          unfold Planned.under
          rw [h]
      rw [hmode, resolveMode_eq_iff]
      constructor
      · intro h p' hp'
        obtain rfl := Option.some.inj hp'
        exact ⟨by rw [hretries]; exact Option.some_ne_none _, h⟩
      · intro h
        exact (h p rfl).2

/-- An app with reset hooks, of which the session learns in the first reset. -/
def hookedApp : Env Bool Unit (Planned Unit) where
  hook _ _ seen := (.ok, seen)
  reset _ _ := (true, true)
  prepare seen := (.ok, seen)
  body _ seen := (.ok, seen)
  unhandled seen := (false, seen)
  softErrors seen := (false, seen)

def seenHooks (seen : Bool) : ResetCapabilities := { hooksDetected := some seen }

def shopOptions : FileOptions where
  config := { package := some "com.shop" }
  path := { isAbsolute := fun _ => true, resolve := fun _ path => path }

/-- A file whose only test is in a describe block. -/
def loginFile : RegisteredSuite Unit Unit :=
  .mk { name := "" } [] [.mk { name := "login" } [{ name := "signs in", fn := () }] []]

theorem plannedFirst_iff_loginFile :
    PlannedFirst hookedApp seenHooks shopOptions loginFile true := by
  refine (plannedFirst_iff hookedApp seenHooks shopOptions loginFile true ?_).mpr fun p hp => ?_
  · show ∀ c ∈ opening _, c.endedWell = true
    decide +kernel
  · obtain rfl := Option.some.inj hp
    exact ⟨by decide, fun _ => by decide +kernel⟩

/-- A session that has not seen the hooks yet plans a clear reset; the block runs with a warm one. -/
theorem plannedFirst_stale : ¬ PlannedFirst hookedApp seenHooks shopOptions loginFile false := by
  intro h
  have hmode := congrArg (Option.map fun p : Planned Unit => p.policy.mode) h
  revert hmode
  decide +kernel

/-- A file whose `test.use()` takes the number of retries back. -/
def unattemptedFile : RegisteredSuite Unit Unit :=
  .mk { name := "", useOptions := { retries := some none } } [{ name := "signs in", fn := () }] []

/-- Its test passes, and its body never runs. -/
theorem plannedFirst_unattempted :
    (∀ c ∈ fileCalls hookedApp seenHooks shopOptions unattemptedFile true, c.endedWell = true) ∧
      ¬ PlannedFirst hookedApp seenHooks shopOptions unattemptedFile true := by
  refine ⟨by decide +kernel, fun h => ?_⟩
  have hsome := congrArg Option.isSome h
  revert hsome
  decide +kernel

end Tapsmith.Runner.Registered
