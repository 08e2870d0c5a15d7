import Mathlib.Algebra.BigOperators.Group.List.Basic
import Mathlib.Algebra.GroupWithZero.Nat
import Mathlib.Data.List.Basic
import Mathlib.Order.WellFounded
import Tapsmith.Fixture.SetupRun
import Tapsmith.Lib.Machine

namespace Tapsmith.Fixture

open Lib.Machine

/-!
# Every fixture is torn down

Whether a setup settles, and whether every fixture function that reached `use` goes on behind it.

* `wellFounded_step` — no setup goes on for ever;
* `SetupOk.stuck` — where it ends;
* `settlesAndTearsDown_iff` — which setups settle, reject and tear down as they should.
-/

variable {F V E : Type} {r r' : Running V E} {resumes : Bool}

section Setup

variable {run : F → Env V → Script V E} {truthy : E → Bool} {all : List (Script V E)}
  {s s' : ResolveState F V E} {i : ℕ}

/-! ### No setup goes on for ever -/

/-- What `resolveFixtures` has left to do, with `m` teardowns queued. -/
def Main.rank (m : ℕ) : Main F E → ℕ
  | .setUp rest => 4 * rest.length + 2 * m + 3
  | .awaitUse _ rest => 4 * rest.length + 2 * m + 6
  | .resolved => 2 * m + 2
  | .tearDown _ todo => 2 * todo.length + 1
  | .awaitFixture _ _ todo => 2 * todo.length + 2
  | .finished _ => 0

/-- What a call has left to do. -/
def Running.left (r : Running V E) : ℕ :=
  2 * r.acts.length + r.suspended.toNat + (!r.settled).toNat

theorem advance_left (h : r.advance = some (r', resumes)) : r'.left < r.left := by
  obtain ⟨hsettled, ⟨hsuspended, -, -, rfl⟩ | ⟨hsuspended, hacts, -, rfl⟩ |
    ⟨_, hsuspended, hacts, -, rfl⟩ | ⟨_, awaited, _, hsuspended, hacts, -, rfl⟩⟩ := advance_cases h
  · simp [Running.left, hsuspended]
  · have hsettle : r.settle.settled = true ∧ r.settle.acts = r.acts ∧
        r.settle.suspended = r.suspended := by
      unfold Running.settle
      cases r.script.throws with
      | none => exact ⟨rfl, rfl, rfl⟩
      | some error =>
        dsimp only [Option.elim_some]
        split
        · exact ⟨rfl, rfl, rfl⟩
        · exact ⟨rfl, rfl, rfl⟩
    simp [Running.left, hsettle, hsettled]
  · simp [Running.left, hacts]
  · have hle : awaited.toNat ≤ 1 := Bool.toNat_le awaited
    simp only [Running.left, Running.resolveUse, hacts, hsuspended, List.length_cons]
    simp only [Bool.toNat_false]
    omega

theorem sum_left_set {calls : List (Running V E)} (hr : calls[i]? = some r)
    (hlt : r'.left < r.left) :
    ((calls.set i r').map Running.left).sum < (calls.map Running.left).sum := by
  induction calls generalizing i with
  | nil => cases hr
  | cons q calls ih =>
    cases i with
    | zero =>
      obtain rfl := Option.some.inj hr
      simpa using hlt
    | succ i =>
      simp only [List.set_cons_succ, List.map_cons, List.sum_cons]
      exact Nat.add_lt_add_left (ih hr) _

theorem stepMain_rank (h : s.stepMain run truthy = some s') :
    s'.main.rank s'.teardowns.length < s.main.rank s.teardowns.length := by
  unfold ResolveState.stepMain at h
  split at h
  case h_1 hs =>
    cases h
    rw [hs]
    simp [Main.rank]
  case h_2 hs =>
    cases h
    rw [hs]
    simp only [Main.rank, List.length_cons]
    omega
  case h_3 hs =>
    obtain ⟨r, -, h⟩ := Option.bind_eq_some_iff.mp h
    obtain ⟨p, -, h⟩ := Option.bind_eq_some_iff.mp h
    rw [hs]
    cases p with
    | value v =>
      cases h
      unfold ResolveState.use
      cases r.fixtureError.filter truthy with
      | none =>
        simp only [Option.elim_none, Main.rank, List.length_cons]
        omega
      | some error =>
        simp only [Option.elim_some, Main.rank]
        omega
    | rejects error =>
      cases h
      simp only [Main.rank]
      omega
    | pending => cases h
  case h_4 hs =>
    cases h
    rw [hs]
    simp [Main.rank]
  case h_5 hs =>
    cases h
    rw [hs]
    simp [Main.rank]
  case h_6 hs =>
    cases h
    rw [hs]
    simp only [Main.rank, List.length_cons]
    omega
  case h_7 hs =>
    obtain ⟨r, -, h⟩ := Option.bind_eq_some_iff.mp h
    split at h
    case isTrue =>
      cases h
      rw [hs]
      simp [Main.rank]
    case isFalse => cases h
  case h_8 => cases h

/-- Every step leaves less to do: for `resolveFixtures`, or for it as much and for a call less. -/
theorem wellFounded_step (run : F → Env V → Script V E) (truthy : E → Bool) : WellFounded fun s' s : ResolveState F V E =>
    ∃ actor, s.step run truthy actor = some s' := by
  let left (s : ResolveState F V E) : ℕ × ℕ :=
    (s.main.rank s.teardowns.length, (s.calls.map Running.left).sum)
  refine Subrelation.wf (r := InvImage (Prod.Lex (· < ·) (· < ·)) left) ?_
    (InvImage.wf left (WellFounded.prod_lex Nat.lt_wfRel.wf Nat.lt_wfRel.wf))
  rintro s' s ⟨actor, hstep⟩
  cases actor with
  | main => exact Prod.Lex.left _ _ (stepMain_rank hstep)
  | fixture i =>
    obtain ⟨r, hr, hstep⟩ := Option.bind_eq_some_iff.mp hstep
    obtain ⟨⟨r', resumes⟩, hadvance, rfl⟩ := Option.map_eq_some_iff.mp hstep
    exact Prod.Lex.right _ (sum_left_set hr (advance_left hadvance))

/-! ### Where a setup ends -/

theorem Ended.length_le {error : Option E}
    (hended : Ended truthy all (s.calls.map (·.script)) s.teardowns.length error) :
    s.teardowns.length ≤ s.calls.length := by
  rw [← List.length_map (f := fun r : Running V E => r.script)]
  cases error with
  | none => exact Nat.le_of_eq hended.1.symm
  | some error =>
    obtain ⟨front, sc, rest, hscs, hlen, -⟩ := hended
    rw [hscs, List.length_append]
    omega

/-- Where nothing is possible any more, the setup is over, or it waits for a function that does not
    provide a value. -/
theorem SetupOk.stuck (h : SetupOk run truthy all s) (hstuck : s.Stuck run truthy) :
    (∃ error, s.main = .finished error) ∨
      (∀ error, s.main ≠ .finished error) ∧ ∃ front sc rest,
        s.calls.map (·.script) = front ++ [sc] ∧ front.length = s.teardowns.length ∧
          s.calls.map (·.script) ++ rest = all ∧ sc.outcome truthy = .hangs := by
  have hmain := h.main
  have hstep : s.stepMain run truthy = none := hstuck .main
  unfold ResolveState.stepMain at hstep
  split at hstep
  case h_1 => cases hstep
  case h_2 => cases hstep
  case h_3 name rest hs =>
    right
    rw [hs] at hmain
    refine ⟨fun error herror => ?_, ?_⟩
    · rw [hs] at herror
      cases herror
    cases hmain with
    | @awaitUse front sc _ _ hscs hlen hall =>
      refine ⟨front, sc, _, hscs, hlen, hall, ?_⟩
      obtain ⟨r, hr⟩ : ∃ r, s.calls.getLast? = some r := by
        refine Option.ne_none_iff_exists'.mp fun hnone => ?_
        rw [List.getLast?_eq_none_iff.mp hnone] at hscs
        exact List.cons_ne_nil _ _ (List.append_eq_nil_iff.mp hscs.symm).2
      obtain ⟨hget, rfl, -⟩ := getLast_calls hscs hr
      have hok := h.calls _ r hget
      have hblocked : r.advance = none := by
        have hfixture := hstuck (.fixture front.length)
        rw [ResolveState.step, hget, Option.bind_some, Option.map_eq_none_iff] at hfixture
        exact hfixture
      rw [hr, Option.bind_some] at hstep
      cases hpromise : r.usePromise with
      | none =>
        obtain hsettled | ⟨-, hne, -⟩ := hok.blocked hblocked
        · obtain ⟨hfirst, hthrows⟩ := hok.ended hsettled hpromise
          rw [Script.outcome, hfirst, hthrows]
          rfl
        · exact absurd hpromise hne
      | some p =>
        rw [hpromise, Option.bind_some] at hstep
        cases p with
        | value v => cases hstep
        | rejects error => cases hstep
        | pending =>
          obtain ⟨hfirst, -⟩ | ⟨_, -, -, hvalue, -⟩ := hok.told hpromise
          · rw [Script.outcome, hfirst]
          · cases hvalue
  case h_4 => cases hstep
  case h_5 => cases hstep
  case h_6 => cases hstep
  case h_7 error i todo hs =>
    -- the function that is waited for can go on, as it has been given the signal
    rw [hs] at hmain
    cases hmain with
    | awaitFixture htodo hlt hended =>
      have hi : i < s.calls.length := Nat.lt_of_lt_of_le hlt hended.length_le
      have hget := List.getElem?_eq_getElem hi
      have hsignal : s.calls[i].teardown = true := by
        refine (h.signalled i _ hget).mpr ⟨?_, hlt⟩
        rw [hs]
        exact Nat.le_refl i
      rw [hget, Option.bind_some] at hstep
      have hblocked : s.calls[i].advance = none := by
        have hfixture := hstuck (.fixture i)
        rw [ResolveState.step, hget, Option.bind_some, Option.map_eq_none_iff] at hfixture
        exact hfixture
      obtain hsettled | ⟨hno, -⟩ := (h.calls i _ hget).blocked hblocked
      · rw [if_pos hsettled] at hstep
        cases hstep
      · rw [hsignal] at hno
        cases hno
  case h_8 error hs => exact Or.inl ⟨error, hs⟩

/-- What should be true where a setup has come to its end: it has settled, with an error if a
    function threw before it called `use`; and the functions that called it have been resumed, each
    as often as it waited and in reverse setup order. -/
structure TornDown (s : ResolveState F V E) : Prop where
  settles : ∃ error, s.main = .finished error
  rejects : (∃ r ∈ s.calls, r.settled = true ∧ r.hasUsed = false ∧ r.script.throws ≠ none) →
    ∃ error, s.main = .finished (some error)
  resumed : ∀ i r, s.calls[i]? = some r → r.hasUsed = true →
    s.resumed.count i = awaits r.script.acts
  order : s.resumed.Pairwise (· ≥ ·)

/-- The first function that provides no value decides: it throws a truthy value before it calls
    `use`, or gives `use` a promise that rejects and waits for no `use`.  Where every function
    provides a value, none of them does so by throwing a falsy one. -/
def MeetsClaim (truthy : E → Bool) (all : List (Script V E)) : Prop :=
  (all.find? fun sc => (sc.outcome truthy).provided.isNone).elim
    (∀ sc ∈ all, sc.outcome truthy ≠ .rejects false)
    fun sc => sc.outcome truthy = .rejects true ∧ awaits sc.acts = 0

/-- The first function that provides no value, behind those of the queued teardowns. -/
theorem SetupOk.find (h : SetupOk run truthy all s) {front rest : List (Script V E)}
    {sc : Script V E} (hscs : s.calls.map (·.script) = front ++ [sc])
    (hlen : front.length = s.teardowns.length) (hall : s.calls.map (·.script) ++ rest = all)
    (hsc : (sc.outcome truthy).provided = none) :
    (all.find? fun sc => (sc.outcome truthy).provided.isNone) = some sc := by
  have hfront : (front.find? fun sc => (sc.outcome truthy).provided.isNone) = none := by
    refine List.find?_eq_none.mpr fun sc' hsc' => ?_
    obtain ⟨i, hi, rfl⟩ := List.mem_iff_getElem.mp hsc'
    have hget : (s.calls.map (·.script))[i]? = some front[i] := by
      rw [hscs, List.getElem?_append_left hi, List.getElem?_eq_getElem hi]
    rw [List.getElem?_map, Option.map_eq_some_iff] at hget
    obtain ⟨r, hr, hscript⟩ := hget
    have hprovided := h.provided i r hr (hlen ▸ hi)
    rw [hscript] at hprovided
    rw [Option.isNone_iff_eq_none]
    exact hprovided
  rw [← hall, hscs, List.append_assoc, List.find?_append, hfront, Option.none_or,
    List.singleton_append, List.find?_cons_of_pos]
  rw [hsc]
  rfl

theorem SetupOk.blocked (h : SetupOk run truthy all s) (hstuck : s.Stuck run truthy)
    (hr : s.calls[i]? = some r) :
    r.settled = true ∨ (r.teardown = false ∧ r.usePromise ≠ none ∧ r.hasUsed = true) := by
  have hfixture := hstuck (.fixture i)
  rw [ResolveState.step, hr, Option.bind_some, Option.map_eq_none_iff] at hfixture
  exact (h.calls i r hr).blocked hfixture

/-- A call that is torn down, where the setup is over. -/
theorem SetupOk.over (h : SetupOk run truthy all s) {error : Option E}
    (hs : s.main = .finished error) (hr : s.calls[i]? = some r) (hi : i < s.teardowns.length) :
    r.settled = true ∧ s.resumed.count i = awaits r.script.acts := by
  have hsettled : r.settled = true := by
    refine h.settled i r hr ?_ hi
    rw [hs]
    exact Nat.zero_le i
  exact ⟨hsettled, (h.calls i r hr).settled hsettled⟩

/-- The functions of a setup that called them all. -/
theorem exists_call (hlen : s.calls.length = s.teardowns.length)
    (hscs : s.calls.map (·.script) = all) {sc : Script V E} (hsc : sc ∈ all) :
    ∃ (i : ℕ) (r : Running V E), s.calls[i]? = some r ∧ i < s.teardowns.length ∧ r.script = sc := by
  rw [← hscs] at hsc
  obtain ⟨r, hr, rfl⟩ := List.mem_map.mp hsc
  obtain ⟨i, hi, rfl⟩ := List.mem_iff_getElem.mp hr
  exact ⟨i, _, List.getElem?_eq_getElem hi, hlen ▸ hi, rfl⟩

theorem SetupOk.find_none (h : SetupOk run truthy all s)
    (hended : Ended truthy all (s.calls.map (·.script)) s.teardowns.length none) :
    (all.find? fun sc => (sc.outcome truthy).provided.isNone) = none := by
  obtain ⟨hlen, hscs⟩ := hended
  rw [List.length_map] at hlen
  refine List.find?_eq_none.mpr fun sc hsc => ?_
  obtain ⟨i, r, hr, hi, rfl⟩ := exists_call hlen hscs hsc
  rw [Option.isNone_iff_eq_none]
  exact h.provided i r hr hi

theorem SetupOk.tornDown_none (h : SetupOk run truthy all s) (hs : s.main = .finished none)
    (hended : Ended truthy all (s.calls.map (·.script)) s.teardowns.length none) :
    TornDown s ↔ MeetsClaim truthy all := by
  rw [MeetsClaim, h.find_none hended, Option.elim_none]
  obtain ⟨hlen, hscs⟩ := hended
  rw [List.length_map] at hlen
  have hfalsy : ∀ (i : ℕ) (r : Running V E), s.calls[i]? = some r → i < s.teardowns.length →
      ((r.hasUsed = false ∧ r.script.throws ≠ none) ↔ r.script.outcome truthy = .rejects false) :=
    fun i r hr hi => (h.calls i r hr).threwFalsy (h.over hs hr hi).1 (h.provided i r hr hi)
  constructor
  · intro htorn sc hsc hout
    obtain ⟨i, r, hr, hi, rfl⟩ := exists_call hlen hscs hsc
    obtain ⟨hused, hthrows⟩ := (hfalsy i r hr hi).mpr hout
    obtain ⟨error, herror⟩ := htorn.rejects
      ⟨r, List.mem_of_getElem? hr, (h.over hs hr hi).1, hused, hthrows⟩
    rw [hs] at herror
    cases herror
  · intro hmeets
    have hlt : ∀ (i : ℕ) (r : Running V E), s.calls[i]? = some r → i < s.teardowns.length :=
      fun i r hr => hlen ▸ (List.getElem?_eq_some_iff.mp hr).1
    refine ⟨⟨none, hs⟩, ?_, fun i r hr _ => (h.over hs hr (hlt i r hr)).2, h.sorted⟩
    rintro ⟨r, hr, -, hused, hthrows⟩
    obtain ⟨i, hi, rfl⟩ := List.mem_iff_getElem.mp hr
    have hget := List.getElem?_eq_getElem hi
    refine absurd ((hfalsy i _ hget (hlt i _ hget)).mp ⟨hused, hthrows⟩) (hmeets _ ?_)
    rw [← hscs]
    exact List.mem_map_of_mem hr

theorem SetupOk.tornDown_some (h : SetupOk run truthy all s) (hstuck : s.Stuck run truthy)
    {error : E} (hs : s.main = .finished (some error))
    (hended : Ended truthy all (s.calls.map (·.script)) s.teardowns.length (some error)) :
    TornDown s ↔ MeetsClaim truthy all := by
  obtain ⟨front, sc, rest, hscs, hlen, hall, hout⟩ := hended
  have hfind := h.find hscs hlen hall (by rw [hout]; rfl)
  rw [MeetsClaim, hfind, Option.elim_some, and_iff_right hout]
  -- the function whose setup failed is not torn down
  have hfailed : ∀ (i : ℕ) (r : Running V E), s.calls[i]? = some r → ¬ i < s.teardowns.length →
      r.script = sc ∧ s.resumed.count i = 0 := by
    intro i r hr hi
    have hget : (s.calls.map (·.script))[i]? = some r.script := by rw [List.getElem?_map, hr]; rfl
    rw [hscs, List.getElem?_append_right (hlen ▸ Nat.not_lt.mp hi), List.getElem?_singleton] at hget
    split at hget
    case isTrue =>
      refine ⟨(Option.some.inj hget).symm, (h.calls i r hr).signalled ?_⟩
      rw [Bool.eq_false_iff]
      exact fun hsignal => hi ((h.signalled i r hr).mp hsignal).2
    case isFalse => cases hget
  constructor
  · intro htorn
    have hlast : front.length < s.calls.length := by
      rw [← List.length_map (f := fun r : Running V E => r.script), hscs, List.length_append]
      exact Nat.lt_succ_self _
    have hr := List.getElem?_eq_getElem hlast
    obtain ⟨hscript, hcount⟩ := hfailed _ _ hr (Nat.not_lt.mpr (Nat.le_of_eq hlen.symm))
    by_cases hfirst : firstUse sc.acts = none
    · exact awaits_of_firstUse hfirst
    have hused : s.calls[front.length].hasUsed = true := by
      obtain hsettled | ⟨-, -, hused⟩ := h.blocked hstuck hr
      · rw [(h.calls _ _ hr).settled_used hsettled, hscript]
        exact Option.isSome_iff_ne_none.mpr hfirst
      · exact hused
    rw [← hscript, ← htorn.resumed _ _ hr hused, hcount]
  · intro hawaits
    refine ⟨⟨some error, hs⟩, fun _ => ⟨error, hs⟩, fun i r hr _ => ?_, h.sorted⟩
    by_cases hi : i < s.teardowns.length
    · exact (h.over hs hr hi).2
    · obtain ⟨hscript, hcount⟩ := hfailed i r hr hi
      rw [hcount, hscript, hawaits]

theorem tornDown_iff (h : SetupOk run truthy all s) (hstuck : s.Stuck run truthy) :
    TornDown s ↔ MeetsClaim truthy all := by
  obtain ⟨error, hs⟩ | ⟨hno, front, sc, rest, hscs, hlen, hall, hout⟩ := h.stuck hstuck
  · have hmain := h.main
    rw [hs] at hmain
    cases hmain with
    | finished hended =>
      cases error with
      | none => exact h.tornDown_none hs hended
      | some error => exact h.tornDown_some hstuck hs hended
  · -- it waits for ever
    have hfind := h.find hscs hlen hall (by rw [hout]; rfl)
    refine iff_of_false (fun htorn => ?_) ?_
    · obtain ⟨error, hs⟩ := htorn.settles
      exact hno error hs
    · rw [MeetsClaim, hfind, Option.elim_some, hout]
      exact fun hmeets => by cases hmeets.1

end Setup

/-- A setup settles and tears down: it never goes on for ever, and wherever it ends, in whatever
    order the functions ran on, it has done what it should. -/
def SettlesAndTearsDown (run : F → Env V → Script V E) (truthy : E → Bool) (baseFixtures : Env V)
    (fixtures : List (String × ResolvedFixture F)) : Prop :=
  (∀ f : ℕ → ResolveState F V E, f 0 = ResolveState.start baseFixtures fixtures →
    ¬ ∀ n, ∃ actor, (f n).step run truthy actor = some (f (n + 1))) ∧
  ∀ actors s, Run (fun s actor s' => s.step run truthy actor = some s')
    (ResolveState.start baseFixtures fixtures) actors s → s.Stuck run truthy → TornDown s

/-- **Which setups settle and tear down.** -/
theorem settlesAndTearsDown_iff (run : F → Env V → Script V E) (truthy : E → Bool)
    (baseFixtures : Env V) (fixtures : List (String × ResolvedFixture F)) :
    SettlesAndTearsDown run truthy baseFixtures fixtures ↔
      MeetsClaim truthy (scripts run baseFixtures fixtures) := by
  constructor
  · rintro ⟨-, hruns⟩
    obtain ⟨actors, s, hrun, hend⟩ := exists_run_stuck
      (wellFounded_step run truthy)
      (ResolveState.start baseFixtures fixtures)
    have hstuck : s.Stuck run truthy := fun actor =>
      Option.eq_none_iff_forall_not_mem.mpr fun s' hstep => hend actor s' hstep
    exact (tornDown_iff (setupOk_of_run hrun) hstuck).mp (hruns actors s hrun hstuck)
  · intro hmeets
    refine ⟨fun f _ hforever => ?_, fun actors s hrun hstuck => ?_⟩
    · obtain ⟨n, hn⟩ := @WellFounded.not_rel_apply_succ _ _
        ⟨wellFounded_step run truthy⟩ f
      exact hn (hforever n)
    · exact (tornDown_iff (setupOk_of_run hrun) hstuck).mpr hmeets

/-! ### The setup without its functions -/

theorem Script.value_of_provided {truthy : E → Bool} {sc : Script V E} {v : Option V}
    (h : (sc.outcome truthy).provided = some v) : sc.value = v := by
  unfold Script.outcome at h
  unfold Script.value
  cases hfirst : firstUse sc.acts with
  | some p =>
    rw [hfirst] at h
    cases p with
    | value w => exact Option.some.inj h
    | rejects error => cases h
    | pending => cases h
  | none =>
    rw [hfirst] at h
    cases hthrows : sc.throws with
    | none =>
      rw [hthrows] at h
      cases h
    | some error =>
      rw [hthrows] at h
      cases htruthy : truthy error with
      | true =>
        simp only [Option.elim_some, htruthy] at h
        cases h
      | false =>
        simp only [Option.elim_some, htruthy] at h
        exact Option.some.inj h

/-- The loop on the outcomes of the functions stops at the first one that provides no value. -/
theorem setUp_result (run : F → Env V → Script V E) (truthy : E → Bool)
    (fixtures : List (String × ResolvedFixture F)) (env : Env V) (teardowns : List String) :
    ((scripts run env fixtures).find? fun sc => (sc.outcome truthy).provided.isNone).elim
      (∃ env' teardowns', (setUp (fun f env => (run f env).outcome truthy) fixtures env
        teardowns).result = .ok env' teardowns')
      fun sc => ∃ teardowns', (setUp (fun f env => (run f env).outcome truthy) fixtures env
        teardowns).result = (sc.outcome truthy).stopped teardowns' := by
  induction fixtures generalizing env teardowns with
  | nil => exact ⟨env, teardowns, rfl⟩
  | cons entry rest ih =>
    obtain ⟨name, fixture⟩ := entry
    rw [scripts, setUp]
    cases hprovided : ((run fixture.fn env).outcome truthy).provided with
    | none =>
      rw [List.find?_cons_of_pos (by rw [hprovided]; rfl)]
      exact ⟨teardowns, by simp only [Option.elim_none]⟩
    | some v =>
      rw [List.find?_cons_of_neg (by rw [hprovided]; exact Bool.false_ne_true),
        Script.value_of_provided hprovided]
      simp only [Option.elim_some]
      exact ih (Function.update env name v) (name :: teardowns)

/-- **The functions behind the outcomes.**  Wherever a setup of functions ends, the loop on their
    outcomes says how: with the fixtures, with an error, or waiting. -/
theorem setUp_refined {run : F → Env V → Script V E} {truthy : E → Bool} {env : Env V}
    {fixtures : List (String × ResolvedFixture F)} {actors : List Actor}
    {s : ResolveState F V E}
    (hrun : Run (fun s actor s' => s.step run truthy actor = some s')
      (ResolveState.start env fixtures) actors s) (hstuck : s.Stuck run truthy) :
    ((∃ env' teardowns, (setUp (fun f env => (run f env).outcome truthy) fixtures env
        []).result = .ok env' teardowns) ↔ s.main = .finished none) ∧
      ((setUp (fun f env => (run f env).outcome truthy) fixtures env []).result = .pending ↔
        ∀ error, s.main ≠ .finished error) := by
  have h := setupOk_of_run hrun
  have hresult := setUp_result run truthy fixtures env []
  obtain ⟨error, hs⟩ | ⟨hno, front, sc, rest, hscs, hlen, hall, hout⟩ := h.stuck hstuck
  · have hmain := h.main
    rw [hs] at hmain
    cases hmain with
    | finished hended =>
      cases error with
      | none =>
        rw [h.find_none hended, Option.elim_none] at hresult
        refine ⟨iff_of_true hresult hs, iff_of_false ?_ fun hno => hno none hs⟩
        obtain ⟨env', teardowns, hok⟩ := hresult
        rw [hok]
        exact fun hpending => by cases hpending
      | some error =>
        obtain ⟨front, sc, rest, hscs, hlen, hall, hout⟩ := hended
        rw [h.find hscs hlen hall (by rw [hout]; rfl), Option.elim_some, hout] at hresult
        obtain ⟨teardowns, hfailed⟩ := hresult
        rw [hfailed, hs]
        refine ⟨iff_of_false (fun hok => ?_) fun hmain => ?_,
          iff_of_false (fun hpending => ?_) fun hno => hno (some error) rfl⟩
        · obtain ⟨env', teardowns', hok⟩ := hok
          cases hok
        · cases hmain
        · cases hpending
  · rw [h.find hscs hlen hall (by rw [hout]; rfl), Option.elim_some, hout] at hresult
    obtain ⟨teardowns, hpending⟩ := hresult
    rw [hpending]
    refine ⟨iff_of_false (fun hok => ?_) (hno none), iff_of_true rfl hno⟩
    obtain ⟨env', teardowns', hok⟩ := hok
    cases hok

theorem deps_eq_nil (names : List String) (h : some [] = some names) : names = [] :=
  (Option.some.inj h).symm

/-- A fixture that depends on nothing. -/
def db : ResolvedFixture Unit where
  fn := ()
  scope := .test
  uses := []
  deps := some []
  deps_eq := deps_eq_nil

/-- The setup of a single fixture. -/
def SingleSettles (script : Script ℕ Bool) : Prop :=
  SettlesAndTearsDown (fun _ _ => script) id (fun _ => none) [("db", db)]

/-- A fixture that throws `undefined` before it calls `use`, and one that returns without calling
    it. -/
theorem not_settlesAndTearsDown :
    ¬ SingleSettles ⟨[], some false⟩ ∧ ¬ SingleSettles ⟨[], none⟩ := by
  constructor
  · rintro ⟨-, hruns⟩
    have hrun := run_of_foldlM (show List.foldlM
      (fun (s : ResolveState Unit ℕ Bool) actor => s.step (fun _ _ => ⟨[], some false⟩) id actor)
      (ResolveState.start (fun _ => none) [("db", db)])
      [.main, .fixture 0, .main, .main, .main, .main, .main, .main] = some _ from rfl)
    have htorn := hruns _ _ hrun fun actor => by
      cases actor with
      | main => rfl
      | fixture i =>
        cases i with
        | zero => rfl
        | succ i => rfl
    obtain ⟨error, herror⟩ :=
      htorn.rejects ⟨_, List.mem_cons_self, rfl, rfl, Option.some_ne_none false⟩
    cases herror
  · rintro ⟨-, hruns⟩
    have hrun := run_of_foldlM (show List.foldlM
      (fun (s : ResolveState Unit ℕ Bool) actor => s.step (fun _ _ => ⟨[], none⟩) id actor)
      (ResolveState.start (fun _ => none) [("db", db)]) [.main, .fixture 0] = some _ from rfl)
    have htorn := hruns _ _ hrun fun actor => by
      cases actor with
      | main => rfl
      | fixture i =>
        cases i with
        | zero => rfl
        | succ i => rfl
    obtain ⟨error, herror⟩ := htorn.settles
    cases herror

end Tapsmith.Fixture
