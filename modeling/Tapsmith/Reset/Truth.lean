import Tapsmith.Reset.Ladder

namespace Tapsmith.Reset

/-!
# What the ladder promises

* `Climbing` — what holds when the ladder comes to a rung;
* `Climbing.climb` — where it ends from there;
* `decide_first` — the first step of a plan;
* `run_ladder_truthful_iff` — a ladder invokes no more than was asked for and its outcome says what
  happened, but for a warm delivery that relaunches the app without saying so.
-/

/-! ### Operations -/

def ResetMode.rank : ResetMode → ℕ
  | .warm => 0
  | .restart => 1
  | .clear => 2

theorem ResetMode.rank_inj {a b : ResetMode} (h : a.rank = b.rank) : a = b := by
  cases a <;> cases b <;> first | rfl | cases h

def Operation.rung : Operation → ResetMode
  | .warmHooks _ => .warm
  | .warmDeepLink _ _ => .warm
  | .restart => .restart
  | .clear => .clear

/-- The step that records an operation. -/
def ResetOps.step (ops : ResetOps) : Operation → ResetStep
  | .warmHooks cold => stepOf "warm-hooks" (ops.warm_hooks cold)
  | .warmDeepLink link cold => stepOf "warm-deep-link" (ops.warm_deep_link link cold)
  | .restart => stepOf "restart" ops.restart
  | .clear => stepOf "clear" ops.clear

def ResetOps.succeeds (ops : ResetOps) (op : Operation) : Bool :=
  (ops.step op).ok

def FirstStep.operation : FirstStep → Operation
  | .warmHooks cold => .warmHooks cold.isSome
  | .warmDeepLink link cold => .warmDeepLink link cold.isSome
  | .restart => .restart
  | .clear => .clear

/-! ### Climbing -/

section Climb

variable {ops : ResetOps} {allow_fallback : Bool} {mode r : ResetMode} {p : Progress}
  {op : Operation}

/-- The ladder comes to a rung: all that has been invoked is below it and has failed. -/
structure Climbing (ops : ResetOps) (allow_fallback : Bool) (mode r : ResetMode) (p : Progress) :
    Prop where
  steps : p.steps = p.invoked.map ops.step
  failed : ∀ o ∈ p.invoked, ops.succeeds o = false
  below : ∀ o ∈ p.invoked, o.rung.rank < r.rank
  ordered : p.invoked.Pairwise fun a b => a.rung.rank < b.rung.rank
  fell_back : p.fell_back = true ↔ r ≠ mode
  mode_le : mode.rank ≤ r.rank
  exact : allow_fallback = false → r = mode ∧ p.invoked = []

/-- What an outcome says of the operations, apart from `cold_launch`. -/
structure Reported (ops : ResetOps) (allow_fallback : Bool) (mode : ResetMode) (l : Ladder) : Prop
    where
  steps : l.outcome.steps = l.invoked.map ops.step
  requested : allow_fallback = false → ∀ op ∈ l.invoked, op.rung = mode
  ordered : l.invoked.Pairwise fun a b => a.rung.rank < b.rung.rank
  failed : ∀ front op, l.invoked = front ++ [op] → ∀ o ∈ front, ops.succeeds o = false
  error_iff : l.outcome.error = none ↔
    ∃ op, l.invoked.getLast? = some op ∧ ops.succeeds op = true
  mode_used : l.outcome.error = none → ∀ op, l.invoked.getLast? = some op →
    l.outcome.mode_used = op.rung
  fell_back : l.outcome.error = none → (l.outcome.fell_back = true ↔ l.outcome.mode_used ≠ mode)

/-- **The last operation.**  Its result is reported whether it succeeds or fails. -/
theorem Climbing.finish (h : Climbing ops allow_fallback mode r p) (hop : op.rung = r)
    {q : Progress} (hsteps : q.steps = p.steps ++ [ops.step op])
    (hinvoked : q.invoked = p.invoked ++ [op]) {fell_back cold_launch : Bool}
    {epoch : Option ℕ} {error : Option String} (hfell : error = none → fell_back = p.fell_back)
    (herror : error = none ↔ ops.succeeds op = true) :
    Reported ops allow_fallback mode (q.finish r fell_back cold_launch epoch error) := by
  have hlast : (q.finish r fell_back cold_launch epoch error).invoked.getLast? = some op := by
    change q.invoked.getLast? = some op
    rw [hinvoked, List.getLast?_concat]
  refine ⟨?_, ?_, ?_, ?_, ?_, ?_, ?_⟩
  · change q.steps = q.invoked.map ops.step
    rw [hsteps, hinvoked, List.map_append, h.steps, List.map_singleton]
  · intro hno o ho
    change o ∈ q.invoked at ho
    obtain ⟨hmode, hnone⟩ := h.exact hno
    rw [hinvoked, hnone, List.nil_append, List.mem_singleton] at ho
    rw [ho, hop, hmode]
  · change q.invoked.Pairwise _
    rw [hinvoked, List.pairwise_append]
    refine ⟨h.ordered, List.pairwise_singleton _ _, ?_⟩
    intro a ha b hb
    rw [List.mem_singleton.mp hb, hop]
    exact h.below a ha
  · intro front last heq o ho
    change q.invoked = front ++ [last] at heq
    rw [hinvoked] at heq
    obtain ⟨rfl, -⟩ := List.append_inj' heq rfl
    exact h.failed o ho
  · rw [hlast]
    change error = none ↔ _
    rw [herror]
    constructor
    · exact fun hok => ⟨op, rfl, hok⟩
    · rintro ⟨o, ho, hok⟩
      cases ho
      exact hok
  · intro _ o ho
    rw [hlast] at ho
    cases ho
    exact hop.symm
  · intro hnone
    change fell_back = true ↔ r ≠ mode
    rw [hfell hnone]
    exact h.fell_back

/-- **The next rung**, when the operation of this one has failed. -/
theorem Climbing.next (h : Climbing ops allow_fallback mode r p) (hop : op.rung = r)
    (hfails : ops.succeeds op = false) (hallow : allow_fallback = true) {r' : ResetMode}
    (hlt : r.rank < r'.rank) {q : Progress} (hsteps : q.steps = p.steps ++ [ops.step op])
    (hinvoked : q.invoked = p.invoked ++ [op]) (hfell : q.fell_back = true) :
    Climbing ops allow_fallback mode r' q := by
  refine ⟨?_, ?_, ?_, ?_, ?_, ?_, ?_⟩
  · rw [hsteps, hinvoked, List.map_append, h.steps, List.map_singleton]
  · rw [hinvoked, List.forall_mem_append]
    exact ⟨h.failed, fun o ho => List.mem_singleton.mp ho ▸ hfails⟩
  · rw [hinvoked, List.forall_mem_append]
    refine ⟨fun o ho => Nat.lt_trans (h.below o ho) hlt, fun o ho => ?_⟩
    rw [List.mem_singleton.mp ho, hop]
    exact hlt
  · rw [hinvoked, List.pairwise_append]
    refine ⟨h.ordered, List.pairwise_singleton _ _, fun a ha b hb => ?_⟩
    rw [List.mem_singleton.mp hb, hop]
    exact h.below a ha
  · refine ⟨fun _ => ?_, fun _ => hfell⟩
    rintro rfl
    have := h.mode_le
    omega
  · have := h.mode_le
    omega
  · intro hno
    rw [hallow] at hno
    cases hno

/-- A ladder that ends on a rung behind the warm one. -/
structure Ends (ops : ResetOps) (allow_fallback : Bool) (mode : ResetMode) (p : Progress)
    (first : Operation) (l : Ladder) : Prop where
  reported : Reported ops allow_fallback mode l
  head : l.invoked.head? = (p.invoked ++ [first]).head?
  cold_launch : l.outcome.error = none → l.outcome.cold_launch = true
  relaunched : ∀ op, l.invoked.getLast? = some op → op = .restart ∨ op = .clear

theorem Climbing.climb_clear (h : Climbing ops allow_fallback mode .clear p) {fuel : ℕ} :
    ∃ l, climb ops allow_fallback (fuel + 1) (some .clear) p = some l ∧
      Ends ops allow_fallback mode p .clear l := by
  have hlast : ∀ op, (p.invoked ++ [Operation.clear]).getLast? = some op →
      op = .restart ∨ op = .clear := by
    intro op hop
    rw [List.getLast?_concat] at hop
    exact .inr (Option.some.inj hop).symm
  unfold climb
  cases hclear : ops.clear with
  | ok =>
    have hstep : ops.step .clear = stepOf "clear" (.ok ()) := by rw [ResetOps.step, hclear]
    have hsucceeds : ops.succeeds .clear = true := by
      rw [ResetOps.succeeds, hstep]
      rfl
    exact ⟨_, rfl, h.finish rfl (by rw [hstep]; rfl) rfl (fun _ => rfl)
      ⟨fun _ => hsucceeds, fun _ => rfl⟩, rfl, fun _ => rfl, hlast⟩
  | error e =>
    have hstep : ops.step .clear = @stepOf Unit "clear" (.error e) := by
      rw [ResetOps.step, hclear]
    have hfails : ops.succeeds .clear = false := by
      rw [ResetOps.succeeds, hstep]
      rfl
    exact ⟨_, rfl, h.finish rfl (by rw [hstep]; rfl) rfl nofun
      ⟨nofun, fun hok => absurd (hfails.symm.trans hok) nofun⟩, rfl, nofun, hlast⟩

theorem Climbing.climb_restart (h : Climbing ops allow_fallback mode .restart p) {fuel : ℕ} :
    ∃ l, climb ops allow_fallback (fuel + 2) (some .restart) p = some l ∧
      Ends ops allow_fallback mode p .restart l := by
  have hlast : ∀ op, (p.invoked ++ [Operation.restart]).getLast? = some op →
      op = .restart ∨ op = .clear := by
    intro op hop
    rw [List.getLast?_concat] at hop
    exact .inl (Option.some.inj hop).symm
  unfold climb
  cases hrestart : ops.restart with
  | ok =>
    have hstep : ops.step .restart = stepOf "restart" (.ok ()) := by
      rw [ResetOps.step, hrestart]
    have hsucceeds : ops.succeeds .restart = true := by
      rw [ResetOps.succeeds, hstep]
      rfl
    exact ⟨_, rfl, h.finish rfl (by rw [hstep]; rfl) rfl (fun _ => rfl)
      ⟨fun _ => hsucceeds, fun _ => rfl⟩, rfl, fun _ => rfl, hlast⟩
  | error e =>
    have hstep : ops.step .restart = @stepOf Unit "restart" (.error e) := by
      rw [ResetOps.step, hrestart]
    have hfails : ops.succeeds .restart = false := by
      rw [ResetOps.succeeds, hstep]
      rfl
    cases allow_fallback with
    | false =>
      exact ⟨_, rfl, h.finish rfl (by rw [hstep]; rfl) rfl nofun
        ⟨nofun, fun hok => absurd (hfails.symm.trans hok) nofun⟩, rfl, nofun, hlast⟩
    | true =>
      let q : Progress := { (@Progress.timed Unit p .restart "restart" (.error e)).because
        s!"restart failed ({e})" with fell_back := true }
      have hnext : Climbing ops true mode .clear q :=
        h.next rfl hfails rfl (by decide) (by rw [hstep]; rfl) rfl rfl
      obtain ⟨l, hl, hends⟩ := @climb_clear ops true mode q hnext fuel
      refine ⟨l, hl, hends.reported, ?_, hends.cold_launch, hends.relaunched⟩
      rw [hends.head]
      change ((p.invoked ++ [Operation.restart]) ++ [Operation.clear]).head? = _
      rw [List.head?_append, List.head?_append]
      cases p.invoked <;> rfl

/-- **A warm step that fails** is the end without fallback, and a climb with it. -/
theorem fallThrough_failed (hop : op.rung = .warm) (hfails : ops.succeeds op = false)
    {fallback : ResetMode} (hfallback : fallback ≠ .warm) (hsteps : p.steps = [ops.step op])
    (hinvoked : p.invoked = [op]) :
    ∃ l, fallThrough ops allow_fallback (some fallback) p = some l ∧
      Reported ops allow_fallback .warm l ∧ l.invoked.head? = some op ∧
      (l.outcome.error = none → l.outcome.cold_launch = true ∧
        ∀ o, l.invoked.getLast? = some o → o = .restart ∨ o = .clear) := by
  have hstart : Climbing ops allow_fallback .warm .warm {} :=
    ⟨rfl, nofun, nofun, .nil, ⟨nofun, fun h => absurd rfl h⟩, Nat.le_refl _, fun _ => ⟨rfl, rfl⟩⟩
  have hfailed : (p.steps.head?.any fun s => !s.ok) = true := by
    rw [hsteps]
    change (!ops.succeeds op) = true
    rw [hfails]
    rfl
  unfold fallThrough
  rw [hfailed]
  cases allow_fallback with
  | false =>
    refine ⟨_, rfl, hstart.finish hop hsteps hinvoked nofun
      ⟨nofun, fun hok => absurd (hfails.symm.trans hok) nofun⟩, ?_, nofun⟩
    change p.invoked.head? = some op
    rw [hinvoked]
    rfl
  | true =>
    let q : Progress := { p with fell_back := p.fell_back || true }
    have hends : ∃ l first, climb ops true 2 (some fallback) q = some l ∧
        Ends ops true .warm q first l := by
      cases fallback with
      | warm => exact absurd rfl hfallback
      | restart =>
        have hnext : Climbing ops true .warm .restart q :=
          hstart.next hop hfails rfl (by decide) hsteps hinvoked (Bool.or_true _)
        obtain ⟨l, hl, hends⟩ := @Climbing.climb_restart ops true .warm q hnext 0
        exact ⟨l, _, hl, hends⟩
      | clear =>
        have hnext : Climbing ops true .warm .clear q :=
          hstart.next hop hfails rfl (by decide) hsteps hinvoked (Bool.or_true _)
        obtain ⟨l, hl, hends⟩ := @Climbing.climb_clear ops true .warm q hnext 1
        exact ⟨l, _, hl, hends⟩
    obtain ⟨l, first, hl, hends⟩ := hends
    refine ⟨l, hl, hends.reported, ?_, fun hnone => ⟨hends.cold_launch hnone, hends.relaunched⟩⟩
    rw [hends.head]
    change (p.invoked ++ [first]).head? = some op
    rw [hinvoked]
    rfl

end Climb

/-! ### Plans -/

section Plan

variable {state : ResetPolicyState} {input : PlanInput}

/-- A warm request for which the app has a hook and that no cold bound turns into something else. -/
def InPlace (state : ResetPolicyState) (input : PlanInput) : Prop :=
  input.mode = .warm ∧ input.hook_available = true ∧
    (state.cold_reason input.force_cold input.cold_every_n = none ∨
      input.supports_cold_delivery = false ∧
        (state.cold_reason input.force_cold input.cold_every_n = some .retryAttempt ∨
          input.allow_fallback = false))

/-- A plan that runs no warm step. -/
def FirstStep.Relaunch (first : FirstStep) : Prop :=
  first = .restart ∨ first = .clear

theorem fallbackPlan_relaunch (reason : String) (consumes : Bool) :
    (fallbackPlan input reason consumes).first.Relaunch := by
  unfold fallbackPlan
  dsimp only
  split
  · exact .inr rfl
  · exact .inl rfl

theorem decideWarm_cases (hmode : input.mode = .warm) :
    (¬ InPlace state input ∧
      ∃ reason consumes, decideWarm state input = fallbackPlan input reason consumes) ∨
    (¬ InPlace state input ∧
      ∃ reason, decideWarm state input = warmPlan input input.warm_fallback (some reason)) ∨
    (InPlace state input ∧ decideWarm state input = warmPlan input input.warm_fallback none) := by
  unfold decideWarm InPlace
  cases hhook : input.hook_available with
  | false => exact .inl ⟨nofun, _, _, rfl⟩
  | true =>
    cases hcold : state.cold_reason input.force_cold input.cold_every_n with
    | none => exact .inr (.inr ⟨⟨hmode, rfl, .inl rfl⟩, rfl⟩)
    | some reason =>
      dsimp only
      rw [if_neg (by exact nofun)]
      cases hsupports : input.supports_cold_delivery with
      | true =>
        refine .inr (.inl ⟨?_, reason, rfl⟩)
        rintro ⟨-, -, h | ⟨h, -⟩⟩ <;> cases h
      | false =>
        rw [if_neg (by exact nofun)]
        by_cases hretry : reason = .retryAttempt
        · rw [if_pos hretry]
          exact .inr (.inr ⟨⟨hmode, rfl, .inr ⟨rfl, .inl (congrArg some hretry)⟩⟩, rfl⟩)
        rw [if_neg hretry]
        cases hallow : input.allow_fallback with
        | true =>
          refine .inl ⟨?_, _, _, rfl⟩
          rintro ⟨-, -, h | ⟨-, h | h⟩⟩
          · cases h
          · exact hretry (Option.some.inj h)
          · cases h
        | false => exact .inr (.inr ⟨⟨hmode, rfl, .inr ⟨rfl, .inr rfl⟩⟩, rfl⟩)

/-- **The plans.** -/
theorem decide_cases (state : ResetPolicyState) (input : PlanInput) :
    (input.mode = .restart ∧ (decide state input).first = .restart ∧
      (decide state input).reason = none) ∨
    (input.mode = .clear ∧ (decide state input).first = .clear ∧
      (decide state input).reason = none) ∨
    (input.mode = .warm ∧ ¬ InPlace state input ∧ (decide state input).first.Relaunch ∧
      (decide state input).reason.isSome = true) ∨
    (input.mode = .warm ∧ ¬ InPlace state input ∧
      ∃ reason, decide state input = warmPlan input input.warm_fallback (some reason)) ∨
    (InPlace state input ∧ decide state input = warmPlan input input.warm_fallback none) := by
  unfold decide
  cases hmode : input.mode with
  | restart => exact .inl ⟨rfl, rfl, rfl⟩
  | clear => exact .inr (.inl ⟨rfl, rfl, rfl⟩)
  | warm =>
    right; right
    rcases @decideWarm_cases state input hmode with ⟨hnot, reason, consumes, hplan⟩ |
      ⟨hnot, hplan⟩ | ⟨hinplace, hplan⟩
    · dsimp only
      rw [hplan]
      exact .inl ⟨rfl, hnot, fallbackPlan_relaunch reason consumes, rfl⟩
    · exact .inr (.inl ⟨rfl, hnot, hplan⟩)
    · exact .inr (.inr ⟨hinplace, hplan⟩)

/-- The first step of a warm plan. -/
theorem warmPlan_first (fallback : ResetMode) (cold : Option ColdReason) :
    (warmPlan input fallback cold).first =
      if input.live_hooks || input.remembered_hooks then .warmHooks cold
      else .warmDeepLink input.reset_deep_link cold := by
  unfold warmPlan
  split <;> rfl

theorem warmPlan_fallback (fallback : ResetMode) (cold : Option ColdReason) :
    (warmPlan input fallback cold).warm_fallback = fallback := by
  unfold warmPlan
  split <;> rfl

theorem warm_fallback_ne : input.warm_fallback ≠ .warm := by
  unfold PlanInput.warm_fallback
  split <;> exact nofun

end Plan

/-! ### Whole ladders -/

section Ladders

variable {ops : ResetOps} {allow_fallback : Bool} {plan : ResetPlan}

/-- A ladder that begins with a warm operation. -/
structure WarmLadder (ops : ResetOps) (allow_fallback : Bool) (op : Operation)
    (cold_launch : Bool) (l : Ladder) : Prop where
  reported : Reported ops allow_fallback .warm l
  head : l.invoked.head? = some op
  cold_launch : l.outcome.error = none → ∀ o, l.invoked.getLast? = some o →
    o = op ∧ l.outcome.cold_launch = cold_launch ∨
      (o = .restart ∨ o = .clear) ∧ l.outcome.cold_launch = true
  succeeds : ops.succeeds op = true → l.outcome.error = none ∧ l.invoked.getLast? = some op

/-- A warm operation that succeeds ends the ladder. -/
theorem warmLadder_finish {op : Operation} (hop : op.rung = .warm)
    (hsucceeds : ops.succeeds op = true) {p : Progress} (hsteps : p.steps = [ops.step op])
    (hinvoked : p.invoked = [op]) {cold_launch : Bool} {epoch : Option ℕ} :
    WarmLadder ops allow_fallback op cold_launch
      (p.finish .warm false cold_launch epoch none) := by
  have hstart : Climbing ops allow_fallback .warm .warm {} :=
    ⟨rfl, nofun, nofun, .nil, ⟨nofun, fun h => absurd rfl h⟩, Nat.le_refl _, fun _ => ⟨rfl, rfl⟩⟩
  have hlast : (p.finish .warm false cold_launch epoch none).invoked.getLast? = some op := by
    change p.invoked.getLast? = some op
    rw [hinvoked]
    rfl
  refine ⟨hstart.finish hop hsteps hinvoked (fun _ => rfl) ⟨fun _ => hsucceeds, fun _ => rfl⟩, ?_,
    ?_, fun _ => ⟨rfl, hlast⟩⟩
  · change p.invoked.head? = some op
    rw [hinvoked]
    rfl
  · intro _ o ho
    rw [hlast] at ho
    exact .inl ⟨(Option.some.inj ho).symm, rfl⟩

/-- One that fails leads down the ladder. -/
theorem warmLadder_fallThrough {op : Operation} (hop : op.rung = .warm)
    (hfails : ops.succeeds op = false) {p : Progress} (hsteps : p.steps = [ops.step op])
    (hinvoked : p.invoked = [op]) {fallback : ResetMode} (hfallback : fallback ≠ .warm)
    {cold_launch : Bool} :
    ∃ l, fallThrough ops allow_fallback (some fallback) p = some l ∧
      WarmLadder ops allow_fallback op cold_launch l := by
  obtain ⟨l, hl, hreported, hhead, hcold⟩ :=
    @fallThrough_failed ops allow_fallback p op hop hfails fallback hfallback hsteps hinvoked
  refine ⟨l, hl, hreported, hhead, ?_, fun hok => absurd (hfails.symm.trans hok) nofun⟩
  intro hnone o ho
  exact .inr ⟨(hcold hnone).2 o ho, (hcold hnone).1⟩

theorem run_ladder_warm (hplan : plan.fell_back = false) :
    run_ladder ops plan allow_fallback =
      runFirst ops plan allow_fallback { reasons := plan.reason.toList } := by
  unfold run_ladder
  rw [hplan]
  rfl

theorem run_ladder_warmHooks {cold : Option ColdReason} (hfirst : plan.first = .warmHooks cold)
    (hfallback : plan.warm_fallback ≠ .warm) :
    ∃ l, run_ladder ops plan allow_fallback = some l ∧
      WarmLadder ops allow_fallback (.warmHooks cold.isSome)
        (cold.isSome || (ops.warm_hooks cold.isSome).toOption.any WarmAck.process_recreated) l := by
  have hplan : plan.fell_back = false := by
    rw [ResetPlan.fell_back, hfirst]
    exact Bool.and_false _
  rw [run_ladder_warm hplan]
  unfold runFirst
  rw [hfirst]
  dsimp only
  have hstep : ops.step (.warmHooks cold.isSome) =
      stepOf "warm-hooks" (ops.warm_hooks cold.isSome) := rfl
  cases hresult : ops.warm_hooks cold.isSome with
  | ok ack =>
    rw [hresult] at hstep
    refine ⟨_, rfl, warmLadder_finish rfl ?_ ?_ ?_⟩
    · rw [ResetOps.succeeds, hstep]
      rfl
    · rw [hstep]
      split <;> rfl
    · split <;> rfl
  | error e =>
    rw [hresult] at hstep
    refine warmLadder_fallThrough rfl ?_ ?_ rfl hfallback
    · rw [ResetOps.succeeds, hstep]
      rfl
    · rw [hstep]
      rfl

theorem run_ladder_warmDeepLink {link : String} {cold : Option ColdReason}
    (hfirst : plan.first = .warmDeepLink link cold) (hfallback : plan.warm_fallback ≠ .warm) :
    ∃ l, run_ladder ops plan allow_fallback = some l ∧
      WarmLadder ops allow_fallback (.warmDeepLink link cold.isSome) cold.isSome l := by
  have hplan : plan.fell_back = false := by
    rw [ResetPlan.fell_back, hfirst]
    exact Bool.and_false _
  rw [run_ladder_warm hplan]
  unfold runFirst
  rw [hfirst]
  dsimp only
  have hstep : ops.step (.warmDeepLink link cold.isSome) =
      stepOf "warm-deep-link" (ops.warm_deep_link link cold.isSome) := rfl
  cases hresult : ops.warm_deep_link link cold.isSome with
  | ok =>
    rw [hresult] at hstep
    refine ⟨_, rfl, warmLadder_finish rfl ?_ ?_ rfl⟩
    · rw [ResetOps.succeeds, hstep]
      rfl
    · rw [hstep]
      rfl
  | error e =>
    rw [hresult] at hstep
    refine warmLadder_fallThrough rfl ?_ ?_ rfl hfallback
    · rw [ResetOps.succeeds, hstep]
      rfl
    · rw [hstep]
      rfl

/-- A ladder that begins with a relaunch that was asked for, or that stands in for a warm reset. -/
theorem run_ladder_relaunch {mode : ResetMode} (hrelaunch : plan.first.Relaunch)
    (hmode : plan.reason = none ∧ plan.first.operation.rung = mode ∨
      plan.reason.isSome = true ∧ mode = .warm) :
    ∃ l, run_ladder ops plan allow_fallback = some l ∧ Reported ops allow_fallback mode l ∧
      (allow_fallback = true → l.invoked.head? = some plan.first.operation) ∧
      (l.outcome.error = none → l.outcome.cold_launch = true ∧
        ∀ o, l.invoked.getLast? = some o → o = .restart ∨ o = .clear) := by
  by_cases hrefused : plan.fell_back = true ∧ allow_fallback = false
  · -- nothing is invoked
    refine ⟨_, if_pos (by rw [hrefused.1, hrefused.2]; rfl), ?_, ?_, nofun⟩
    · exact ⟨rfl, fun _ _ h => absurd h List.not_mem_nil, .nil,
        fun _ _ h => absurd h (by simp [Progress.finish]), ⟨nofun, nofun⟩, nofun, nofun⟩
    · rw [hrefused.2]
      exact nofun
  · have hrun : run_ladder ops plan allow_fallback = runFirst ops plan allow_fallback
        { reasons := plan.reason.toList, fell_back := plan.fell_back } := by
      refine if_neg ?_
      rw [Bool.and_eq_true, Bool.not_eq_true']
      exact hrefused
    let p : Progress :=
      { reasons := plan.reason.toList, fell_back := plan.fell_back || false }
    have hclimbing : Climbing ops allow_fallback mode plan.first.operation.rung p := by
      have hfell : plan.fell_back = plan.reason.isSome := by
        unfold ResetPlan.fell_back
        rcases hrelaunch with hfirst | hfirst <;> rw [hfirst] <;> exact Bool.and_true _
      have hne : plan.first.operation.rung ≠ .warm := by
        rcases hrelaunch with hfirst | hfirst <;> rw [hfirst] <;> exact nofun
      refine ⟨rfl, nofun, nofun, .nil, ?_, ?_, ?_⟩
      · change (plan.fell_back || false) = true ↔ _
        rw [Bool.or_false, hfell]
        rcases hmode with ⟨hnone, hrung⟩ | ⟨hsome, rfl⟩
        · rw [hnone]
          exact ⟨nofun, fun h => absurd hrung h⟩
        · exact ⟨fun _ => hne, fun _ => hsome⟩
      · rcases hmode with ⟨-, rfl⟩ | ⟨-, rfl⟩
        · exact Nat.le_refl _
        · exact Nat.zero_le _
      · intro hno
        rcases hmode with ⟨-, hrung⟩ | ⟨hsome, -⟩
        · exact ⟨hrung, rfl⟩
        · exact absurd ⟨hfell.trans hsome, hno⟩ hrefused
    have hends : ∃ l, runFirst ops plan allow_fallback
          { reasons := plan.reason.toList, fell_back := plan.fell_back } = some l ∧
        Ends ops allow_fallback mode p plan.first.operation l := by
      unfold runFirst
      rcases hrelaunch with hfirst | hfirst
      · rw [hfirst] at hclimbing ⊢
        exact @Climbing.climb_restart ops allow_fallback mode p hclimbing 0
      · rw [hfirst] at hclimbing ⊢
        exact @Climbing.climb_clear ops allow_fallback mode p hclimbing 1
    obtain ⟨l, hl, hends⟩ := hends
    exact ⟨l, hrun.trans hl, hends.reported, fun _ => hends.head,
      fun hnone => ⟨hends.cold_launch hnone, hends.relaunched⟩⟩

end Ladders

/-! ### The promise -/

section Promise

variable {state : ResetPolicyState} {input : PlanInput} {ops : ResetOps}
  {relaunches : Operation → Bool}

/-- What an operation that succeeds does to the process, as the operations are documented: a cold
    delivery, a restart and a clear recreate it, and so has a warm delivery whose acknowledgement
    says so. -/
structure Relaunches (ops : ResetOps) (relaunches : Operation → Bool) : Prop where
  cold_hooks : ∀ ack, ops.warm_hooks true = .ok ack → relaunches (.warmHooks true) = true
  cold_link : ∀ link, ops.warm_deep_link link true = .ok () →
    relaunches (.warmDeepLink link true) = true
  restart : ops.restart = .ok () → relaunches .restart = true
  clear : ops.clear = .ok () → relaunches .clear = true
  acknowledged : ∀ ack, ops.warm_hooks false = .ok ack → ack.process_recreated = true →
    relaunches (.warmHooks false) = true

/-- A delivery in place that succeeds and has relaunched the app, though the acknowledgement of the
    hooks does not say so; a deep link has no acknowledgement. -/
def SilentRelaunch (input : PlanInput) (ops : ResetOps) (relaunches : Operation → Bool) : Prop :=
  if input.live_hooks || input.remembered_hooks then
    relaunches (.warmHooks false) = true ∧
      ∃ ack, ops.warm_hooks false = .ok ack ∧ ack.process_recreated = false
  else
    relaunches (.warmDeepLink input.reset_deep_link false) = true ∧
      ops.warm_deep_link input.reset_deep_link false = .ok ()

/-- The ladder invokes no more than was asked for, and its outcome says what happened. -/
structure Truthful (state : ResetPolicyState) (input : PlanInput) (ops : ResetOps)
    (relaunches : Operation → Bool) (l : Ladder) : Prop where
  reported : Reported ops input.allow_fallback input.mode l
  planned : input.allow_fallback = true →
    l.invoked.head? = some (decide state input).first.operation
  cold_launch : l.outcome.error = none → ∀ op, l.invoked.getLast? = some op →
    (l.outcome.cold_launch = true ↔ relaunches op = true)

theorem succeeds_restart : ops.succeeds .restart = true ↔ ops.restart = .ok () := by
  unfold ResetOps.succeeds ResetOps.step
  dsimp only
  cases ops.restart with
  | ok => exact ⟨fun _ => rfl, fun _ => rfl⟩
  | error e => exact ⟨nofun, nofun⟩

theorem succeeds_clear : ops.succeeds .clear = true ↔ ops.clear = .ok () := by
  unfold ResetOps.succeeds ResetOps.step
  dsimp only
  cases ops.clear with
  | ok => exact ⟨fun _ => rfl, fun _ => rfl⟩
  | error e => exact ⟨nofun, nofun⟩

theorem succeeds_warmHooks {cold : Bool} :
    ops.succeeds (.warmHooks cold) = true ↔ ∃ ack, ops.warm_hooks cold = .ok ack := by
  unfold ResetOps.succeeds ResetOps.step
  dsimp only
  cases ops.warm_hooks cold with
  | ok ack => exact ⟨fun _ => ⟨ack, rfl⟩, fun _ => rfl⟩
  | error e => exact ⟨nofun, nofun⟩

theorem succeeds_warmDeepLink {link : String} {cold : Bool} :
    ops.succeeds (.warmDeepLink link cold) = true ↔ ops.warm_deep_link link cold = .ok () := by
  unfold ResetOps.succeeds ResetOps.step
  dsimp only
  cases ops.warm_deep_link link cold with
  | ok => exact ⟨fun _ => rfl, fun _ => rfl⟩
  | error e => exact ⟨nofun, nofun⟩

/-- A rung behind the warm one always recreates the process. -/
theorem Relaunches.relaunched (h : Relaunches ops relaunches) {op : Operation}
    (hop : op = .restart ∨ op = .clear) (hsucceeds : ops.succeeds op = true) :
    relaunches op = true := by
  rcases hop with rfl | rfl
  · exact h.restart (succeeds_restart.mp hsucceeds)
  · exact h.clear (succeeds_clear.mp hsucceeds)

/-- In an outcome without error the last operation has succeeded. -/
theorem Reported.last_succeeds {allow_fallback : Bool} {mode : ResetMode} {l : Ladder}
    (h : Reported ops allow_fallback mode l) (hnone : l.outcome.error = none) {op : Operation}
    (hlast : l.invoked.getLast? = some op) : ops.succeeds op = true := by
  obtain ⟨o, ho, hsucceeds⟩ := h.error_iff.mp hnone
  rw [hlast] at ho
  cases ho
  exact hsucceeds

/-- A warm ladder is truthful if its first operation does to the process what the outcome is going
    to say it did. -/
theorem WarmLadder.truthful_iff (hrelaunches : Relaunches ops relaunches)
    {op : Operation} (hrung : op.rung = .warm) {cold_launch : Bool} {l : Ladder}
    (h : WarmLadder ops input.allow_fallback op cold_launch l) (hmode : input.mode = .warm)
    (hfirst : (decide state input).first.operation = op) :
    Truthful state input ops relaunches l ↔
      (ops.succeeds op = true → (cold_launch = true ↔ relaunches op = true)) := by
  constructor
  · intro htruthful hsucceeds
    obtain ⟨hnone, hlast⟩ := h.succeeds hsucceeds
    rcases h.cold_launch hnone op hlast with ⟨-, hcold⟩ | ⟨hop, -⟩
    · rw [← hcold]
      exact htruthful.cold_launch hnone op hlast
    · rcases hop with rfl | rfl <;> cases hrung
  · intro hop
    refine ⟨hmode ▸ h.reported, fun _ => hfirst ▸ h.head, ?_⟩
    intro hnone o ho
    have hsucceeds := h.reported.last_succeeds hnone ho
    rcases h.cold_launch hnone o ho with ⟨rfl, hcold⟩ | ⟨ho', hcold⟩
    · rw [hcold]
      exact hop hsucceeds
    · rw [hcold]
      exact ⟨fun _ => hrelaunches.relaunched ho' hsucceeds, fun _ => rfl⟩

/-- When the ladder of a plan that stays warm is truthful. -/
theorem warmPlan_truthful_iff (hrelaunches : Relaunches ops relaunches) (hmode : input.mode = .warm)
    {cold : Option ColdReason}
    (hplan : decide state input = warmPlan input input.warm_fallback cold) :
    (∃ l, run_ladder ops (decide state input) input.allow_fallback = some l ∧
      Truthful state input ops relaunches l) ↔
    if input.live_hooks || input.remembered_hooks then
      ∀ ack, ops.warm_hooks cold.isSome = .ok ack →
        ((cold.isSome || ack.process_recreated) = true ↔
          relaunches (.warmHooks cold.isSome) = true)
    else
      ops.warm_deep_link input.reset_deep_link cold.isSome = .ok () →
        (cold.isSome = true ↔
          relaunches (.warmDeepLink input.reset_deep_link cold.isSome) = true) := by
  have hfallback : (decide state input).warm_fallback ≠ .warm := by
    rw [hplan, warmPlan_fallback]
    exact warm_fallback_ne
  have hfirst := @warmPlan_first input input.warm_fallback cold
  rw [← hplan] at hfirst
  -- the ladder is a function of the plan
  have hexists : ∀ {l : Ladder}, run_ladder ops (decide state input) input.allow_fallback = some l →
      ((∃ l', run_ladder ops (decide state input) input.allow_fallback = some l' ∧
        Truthful state input ops relaunches l') ↔ Truthful state input ops relaunches l) := by
    intro l hl
    rw [hl]
    constructor
    · rintro ⟨l', hl', htruthful⟩
      cases hl'
      exact htruthful
    · exact fun htruthful => ⟨l, rfl, htruthful⟩
  split at hfirst
  case isTrue hhooks =>
    obtain ⟨l, hl, hladder⟩ := @run_ladder_warmHooks ops input.allow_fallback _ _ hfirst hfallback
    rw [if_pos hhooks, hexists hl,
      hladder.truthful_iff hrelaunches rfl hmode (by rw [hfirst]; rfl), succeeds_warmHooks]
    constructor
    · intro h ack hack
      have := h ⟨ack, hack⟩
      rw [hack] at this
      exact this
    · rintro h ⟨ack, hack⟩
      rw [hack]
      exact h ack hack
  case isFalse hhooks =>
    obtain ⟨l, hl, hladder⟩ := @run_ladder_warmDeepLink ops input.allow_fallback _ _ _ hfirst hfallback
    rw [if_neg hhooks, hexists hl,
      hladder.truthful_iff hrelaunches rfl hmode (by rw [hfirst]; rfl), succeeds_warmDeepLink]

/-- A delivery in place is truthful unless it relaunches the app silently. -/
theorem inPlace_iff (hrelaunches : Relaunches ops relaunches) :
    (if input.live_hooks || input.remembered_hooks then
      ∀ ack, ops.warm_hooks false = .ok ack →
        ((false || ack.process_recreated) = true ↔ relaunches (.warmHooks false) = true)
    else
      ops.warm_deep_link input.reset_deep_link false = .ok () →
        (false = true ↔ relaunches (.warmDeepLink input.reset_deep_link false) = true)) ↔
    ¬ SilentRelaunch input ops relaunches := by
  unfold SilentRelaunch
  split
  case isTrue =>
    constructor
    · rintro h ⟨hrelaunch, ack, hack, hsilent⟩
      have := (h ack hack).mpr hrelaunch
      rw [hsilent] at this
      cases this
    · intro h ack hack
      refine ⟨hrelaunches.acknowledged ack hack, fun hrelaunch => ?_⟩
      by_contra hsilent
      exact h ⟨hrelaunch, ack, hack, Bool.eq_false_iff.mpr hsilent⟩
  case isFalse =>
    constructor
    · rintro h ⟨hrelaunch, hok⟩
      exact Bool.false_ne_true ((h hok).mpr hrelaunch)
    · intro h hok
      exact ⟨nofun, fun hrelaunch => absurd ⟨hrelaunch, hok⟩ h⟩

/-- **The reset ladder.**  It never panics, invokes no more than was asked for, climbs in order, and
    reports what happened, if and only if no delivery in place relaunches the app silently. -/
theorem run_ladder_truthful_iff (state : ResetPolicyState) (input : PlanInput) (ops : ResetOps)
    (relaunches : Operation → Bool) (hrelaunches : Relaunches ops relaunches) :
    (∃ l, run_ladder ops (decide state input) input.allow_fallback = some l ∧
      Truthful state input ops relaunches l) ↔
    ¬ (InPlace state input ∧ SilentRelaunch input ops relaunches) := by
  have hrelaunch : ∀ mode, input.mode = mode → ¬ InPlace state input →
      (decide state input).first.Relaunch →
      ((decide state input).reason = none ∧ (decide state input).first.operation.rung = mode ∨
        (decide state input).reason.isSome = true ∧ mode = .warm) →
      ((∃ l, run_ladder ops (decide state input) input.allow_fallback = some l ∧
        Truthful state input ops relaunches l) ↔
      ¬ (InPlace state input ∧ SilentRelaunch input ops relaunches)) := by
    rintro mode rfl hnot hfirst hreason
    obtain ⟨l, hl, hreported, hhead, hcold⟩ :=
      @run_ladder_relaunch ops input.allow_fallback _ _ hfirst hreason
    refine ⟨fun _ hand => hnot hand.1, fun _ => ⟨l, hl, hreported, hhead, ?_⟩⟩
    intro hnone op hop
    obtain ⟨hlaunch, hlast⟩ := hcold hnone
    rw [hlaunch]
    exact ⟨fun _ => hrelaunches.relaunched (hlast op hop) (hreported.last_succeeds hnone hop),
      fun _ => rfl⟩
  rcases decide_cases state input with ⟨hmode, hfirst, hreason⟩ | ⟨hmode, hfirst, hreason⟩ |
    ⟨hmode, hnot, hfirst, hreason⟩ | ⟨hmode, hnot, reason, hplan⟩ | ⟨hinplace, hplan⟩
  · refine hrelaunch _ hmode (fun h => ?_) (.inl hfirst) (.inl ⟨hreason, by rw [hfirst]; rfl⟩)
    exact absurd (hmode.symm.trans h.1) nofun
  · refine hrelaunch _ hmode (fun h => ?_) (.inr hfirst) (.inl ⟨hreason, by rw [hfirst]; rfl⟩)
    exact absurd (hmode.symm.trans h.1) nofun
  · exact hrelaunch _ hmode hnot hfirst (.inr ⟨hreason, rfl⟩)
  · rw [warmPlan_truthful_iff hrelaunches hmode hplan]
    refine ⟨fun _ hand => hnot hand.1, fun _ => ?_⟩
    split
    · exact fun ack hack => ⟨fun _ => hrelaunches.cold_hooks ack hack, fun _ => rfl⟩
    · exact fun hok => ⟨fun _ => hrelaunches.cold_link _ hok, fun _ => rfl⟩
  · rw [warmPlan_truthful_iff hrelaunches hinplace.1 hplan]
    exact (inPlace_iff hrelaunches).trans (not_congr (and_iff_right hinplace).symm)

/-- A warm reset through the hooks fails, and the restart behind it succeeds. -/
theorem run_ladder_truthful_iff_hooks :
    let input : PlanInput :=
      { mode := .warm, marker := some { url_prefix := "myapp:///" }, remembered_marker := none
        reset_deep_link := "", force_cold := false, cold_every_n := 0
        supports_cold_delivery := true, fallback_to_clear := false, allow_fallback := true }
    let ops : ResetOps :=
      { warm_hooks := fun _ => .error "no acknowledgement", warm_deep_link := fun _ _ => .ok ()
        restart := .ok (), clear := .ok () }
    ∃ l, run_ladder ops (decide {} input) true = some l ∧
      Truthful {} input ops (fun _ => true) l := by
  intro input ops
  have hrelaunches : Relaunches ops fun _ => true :=
    ⟨fun _ _ => rfl, fun _ _ => rfl, fun _ => rfl, fun _ => rfl, fun _ _ _ => rfl⟩
  refine (run_ladder_truthful_iff {} input ops _ hrelaunches).mpr ?_
  rintro ⟨-, -, ack, hack, -⟩
  cases hack

/-- A reset link that is delivered warm and lands only after the app has been relaunched. -/
theorem run_ladder_hides_relaunch :
    let input : PlanInput :=
      { mode := .warm, marker := none, remembered_marker := none
        reset_deep_link := "myapp:///__reset", force_cold := false, cold_every_n := 0
        supports_cold_delivery := true, fallback_to_clear := false, allow_fallback := true }
    let ops : ResetOps :=
      { warm_hooks := fun _ => .error "no in-app reset hooks detected"
        warm_deep_link := fun _ _ => .ok (), restart := .ok (), clear := .ok () }
    Relaunches ops (fun _ => true) ∧
      ¬ ∃ l, run_ladder ops (decide {} input) true = some l ∧
        Truthful {} input ops (fun _ => true) l := by
  intro input ops
  refine ⟨⟨fun _ _ => rfl, fun _ _ => rfl, fun _ => rfl, fun _ => rfl, fun _ _ _ => rfl⟩, ?_⟩
  rintro ⟨l, hl, htruthful⟩
  have hladder : run_ladder ops (decide {} input) true = some
      { outcome :=
          { mode_used := .warm, fell_back := false, cold_launch := false, reason := none
            steps := [{ name := "warm-deep-link", ok := true, detail := "" }]
            epoch_after := none, error := none }
        invoked := [.warmDeepLink "myapp:///__reset" false] } := by rfl
  rw [hladder] at hl
  cases hl
  exact Bool.false_ne_true ((htruthful.cold_launch rfl _ rfl).mpr rfl)

end Promise

end Tapsmith.Reset
