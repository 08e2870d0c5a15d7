import Mathlib.Data.List.Basic
import Tapsmith.Fixture.Calls
import Tapsmith.Lib.Machine

namespace Tapsmith.Fixture

open Lib.Machine

/-!
# A setup that is under way

* `SetupOk` — which functions have been called, which are to be torn down, and which of them have
  been given the signal, been resumed and ended;
* `SetupOk.fixture`, `SetupOk.stepMain` — what every step keeps;
* `setupOk_of_run` — what every run keeps.
-/

variable {F V E : Type} {r r' : Running V E} {resumes : Bool}

section Setup

variable (run : F → Env V → Script V E) (truthy : E → Bool) (all : List (Script V E))

/-- The calls, in a setup that ends with an error or without one: the last of them failed, or all
    of them are to be torn down. -/
def Ended (scs : List (Script V E)) (m : ℕ) (error : Option E) : Prop :=
  error.elim (scs.length = m ∧ scs = all) fun _ =>
    ∃ front sc rest, scs = front ++ [sc] ∧ front.length = m ∧ scs ++ rest = all ∧
      sc.outcome truthy = .rejects true

/-- Where the setup is, with the functions `scs` called and `m` teardowns queued. -/
inductive MainOk (fixtures : Env V) (scs : List (Script V E)) (m : ℕ) : Main F E → Prop
  | setUp {rest : List (String × ResolvedFixture F)} (hlen : scs.length = m)
      (hall : scs ++ scripts run fixtures rest = all) : MainOk fixtures scs m (.setUp rest)
  | awaitUse {front : List (Script V E)} {sc : Script V E} {name : String}
      {rest : List (String × ResolvedFixture F)} (hscs : scs = front ++ [sc])
      (hlen : front.length = m)
      (hall : scs ++ scripts run (Function.update fixtures name sc.value) rest = all) :
      MainOk fixtures scs m (.awaitUse name rest)
  | resolved (hended : Ended truthy all scs m none) : MainOk fixtures scs m .resolved
  | tearDown {error : Option E} {todo : List ℕ} (htodo : todo = (List.range todo.length).reverse)
      (hle : todo.length ≤ m) (hended : Ended truthy all scs m error) :
      MainOk fixtures scs m (.tearDown error todo)
  | awaitFixture {error : Option E} {i : ℕ} {todo : List ℕ} (htodo : todo = (List.range i).reverse)
      (hlt : i < m) (hended : Ended truthy all scs m error) :
      MainOk fixtures scs m (.awaitFixture error i todo)
  | finished {error : Option E} (hended : Ended truthy all scs m error) :
      MainOk fixtures scs m (.finished error)

/-- The first call that has been given the signal, of `m` that are to be torn down. -/
def Main.floor (m : ℕ) : Main F E → ℕ
  | .tearDown _ todo => todo.length
  | .awaitFixture _ i _ => i
  | .finished _ => 0
  | _ => m

/-- The first call that is known to have ended. -/
def Main.settledFrom (m : ℕ) : Main F E → ℕ
  | .awaitFixture _ i _ => i + 1
  | main => main.floor m

theorem settledFrom_le {m : ℕ} (main : Main F E) : main.settledFrom m ≤ main.floor m + 1 := by
  cases main with
  | awaitFixture error i todo => exact Nat.le_refl _
  | setUp rest => exact Nat.le_succ _
  | awaitUse name rest => exact Nat.le_succ _
  | resolved => exact Nat.le_succ _
  | tearDown error todo => exact Nat.le_succ _
  | finished error => exact Nat.le_succ _

structure SetupOk (s : ResolveState F V E) : Prop where
  calls : ∀ i r, s.calls[i]? = some r → CallOk r (s.resumed.count i)
  resumed_lt : ∀ i ∈ s.resumed, i < s.calls.length
  resumed_mem : ∀ i ∈ s.resumed, s.main.floor s.teardowns.length ≤ i ∧ i < s.teardowns.length
  sorted : s.resumed.Pairwise (· ≥ ·)
  teardowns : s.teardowns = (List.range s.teardowns.length).reverse
  provided : ∀ i r, s.calls[i]? = some r → i < s.teardowns.length →
    (r.script.outcome truthy).provided ≠ none
  signalled : ∀ i r, s.calls[i]? = some r →
    (r.teardown = true ↔ s.main.floor s.teardowns.length ≤ i ∧ i < s.teardowns.length)
  settled : ∀ i r, s.calls[i]? = some r → s.main.settledFrom s.teardowns.length ≤ i →
    i < s.teardowns.length → r.settled = true
  main : MainOk run truthy all s.fixtures (s.calls.map (·.script)) s.teardowns.length s.main

variable {run truthy all} {s s' : ResolveState F V E} {i : ℕ}

theorem setupOk_start {baseFixtures : Env V} {fixtures : List (String × ResolvedFixture F)} :
    SetupOk run truthy (scripts run baseFixtures fixtures)
      (ResolveState.start baseFixtures fixtures) where
  calls _ _ h := absurd h (by simp [ResolveState.start])
  resumed_lt _ h := absurd h List.not_mem_nil
  resumed_mem _ h := absurd h List.not_mem_nil
  sorted := .nil
  teardowns := rfl
  provided _ _ h := absurd h (by simp [ResolveState.start])
  signalled _ _ h := absurd h (by simp [ResolveState.start])
  settled _ _ h := absurd h (by simp [ResolveState.start])
  main := .setUp rfl rfl

theorem map_script_set {calls : List (Running V E)} (hr : calls[i]? = some r)
    (hscript : r'.script = r.script) :
    (calls.set i r').map (·.script) = calls.map (·.script) := by
  ext1 j
  rw [List.getElem?_map, List.getElem?_map, List.getElem?_set]
  by_cases hij : i = j
  · subst hij
    rw [if_pos rfl, if_pos (List.getElem?_eq_some_iff.mp hr).1, hr, Option.map_some,
      Option.map_some, hscript]
  · rw [if_neg hij]

/-- A step of a function that is running. -/
theorem SetupOk.fixture (h : SetupOk run truthy all s)
    (hstep : s.step run truthy (.fixture i) = some s') : SetupOk run truthy all s' := by
  obtain ⟨r, hr, hstep⟩ := Option.bind_eq_some_iff.mp hstep
  obtain ⟨⟨r', resumes⟩, hadvance, rfl⟩ := Option.map_eq_some_iff.mp hstep
  obtain ⟨hscript, hteardown⟩ := advance_keeps hadvance
  obtain ⟨hsettled, hcases⟩ := advance_cases hadvance
  have hlt : i < s.calls.length := (List.getElem?_eq_some_iff.mp hr).1
  have hget : ∀ j q, (s.calls.set i r')[j]? = some q →
      (j = i ∧ q = r') ∨ (j ≠ i ∧ s.calls[j]? = some q) := by
    intro j q hq
    rw [List.getElem?_set] at hq
    by_cases hij : i = j
    · rw [if_pos hij, if_pos hlt] at hq
      exact Or.inl ⟨hij.symm, (Option.some.inj hq).symm⟩
    · rw [if_neg hij] at hq
      exact Or.inr ⟨Ne.symm hij, hq⟩
  have hcount : ∀ j, (if resumes then s.resumed ++ [i] else s.resumed).count j =
      s.resumed.count j + if j = i then resumes.toNat else 0 := by
    intro j
    cases resumes with
    | false => simp
    | true =>
      rw [if_pos rfl, List.count_append]
      by_cases hji : j = i
      · subst hji
        simp
      · simp [hji, Ne.symm hji]
  have hmem : ∀ j ∈ (if resumes then s.resumed ++ [i] else s.resumed),
      j ∈ s.resumed ∨ (j = i ∧ resumes = true) := by
    intro j hj
    cases resumes with
    | false => exact Or.inl hj
    | true =>
      refine (List.mem_append.mp hj).imp_right fun hj => ⟨List.mem_singleton.mp hj, rfl⟩
  -- a call that is resumed is the one whose teardown is waited for
  have hfloor : resumes = true → s.main.floor s.teardowns.length = i ∧ i < s.teardowns.length := by
    rintro rfl
    have hsignal : r.teardown = true := by
      rcases hcases with ⟨-, h, -, -⟩ | ⟨-, -, h, -⟩ | ⟨-, -, -, h, -⟩ | ⟨-, -, -, -, -, h, -⟩
      · exact h
      · cases h
      · cases h
      · cases h
    obtain ⟨hle, hm⟩ := (h.signalled i r hr).mp hsignal
    have hnot : ¬ s.main.settledFrom s.teardowns.length ≤ i := by
      intro hfrom
      rw [h.settled i r hr hfrom hm] at hsettled
      cases hsettled
    have hfrom := settledFrom_le (m := s.teardowns.length) s.main
    refine ⟨?_, hm⟩
    omega
  constructor
  case calls =>
    intro j q hq
    dsimp only
    rw [hcount]
    rcases hget j q hq with ⟨rfl, rfl⟩ | ⟨hne, hq⟩
    · rw [if_pos rfl]
      exact (h.calls j r hr).advance hadvance
    · rw [if_neg hne]
      exact h.calls j q hq
  case resumed_lt =>
    intro j hj
    rw [List.length_set]
    rcases hmem j hj with hj | ⟨rfl, -⟩
    · exact h.resumed_lt j hj
    · exact hlt
  case resumed_mem =>
    intro j hj
    rcases hmem j hj with hj | ⟨rfl, hres⟩
    · exact h.resumed_mem j hj
    · exact ⟨Nat.le_of_eq (hfloor hres).1, (hfloor hres).2⟩
  case sorted =>
    cases resumes with
    | false => exact h.sorted
    | true =>
      refine List.pairwise_append.mpr ⟨h.sorted, List.pairwise_singleton _ _, fun j hj k hk => ?_⟩
      obtain rfl := List.mem_singleton.mp hk
      exact (hfloor rfl).1 ▸ (h.resumed_mem j hj).1
  case teardowns => exact h.teardowns
  case provided =>
    intro j q hq hj
    rcases hget j q hq with ⟨rfl, rfl⟩ | ⟨hne, hq⟩
    · rw [hscript]
      exact h.provided j r hr hj
    · exact h.provided j q hq hj
  case signalled =>
    intro j q hq
    rcases hget j q hq with ⟨rfl, rfl⟩ | ⟨hne, hq⟩
    · rw [hteardown]
      exact h.signalled j r hr
    · exact h.signalled j q hq
  case settled =>
    intro j q hq hfrom hj
    rcases hget j q hq with ⟨rfl, rfl⟩ | ⟨hne, hq⟩
    · rw [h.settled j r hr hfrom hj] at hsettled
      cases hsettled
    · exact h.settled j q hq hfrom hj
  case main =>
    dsimp only
    rw [map_script_set hr hscript]
    exact h.main

/-- A change that leaves alone what the calls know, and moves neither the signal nor the wait. -/
theorem SetupOk.moveTo (h : SetupOk run truthy all s) (fixtures : Env V) {main : Main F E}
    (hfloor : main.floor s.teardowns.length = s.main.floor s.teardowns.length)
    (hfrom : s.main.settledFrom s.teardowns.length ≤ main.settledFrom s.teardowns.length)
    (hmain : MainOk run truthy all fixtures (s.calls.map (·.script)) s.teardowns.length main) :
    SetupOk run truthy all { s with fixtures, main } where
  calls := h.calls
  resumed_lt := h.resumed_lt
  resumed_mem j hj := hfloor ▸ h.resumed_mem j hj
  sorted := h.sorted
  teardowns := h.teardowns
  provided := h.provided
  signalled j r hr := hfloor ▸ h.signalled j r hr
  settled j r hr hle := h.settled j r hr (Nat.le_trans hfrom hle)
  main := hmain

/-- The last call, while its value is awaited. -/
theorem getLast_calls {front : List (Script V E)} {sc : Script V E}
    (hscs : s.calls.map (·.script) = front ++ [sc]) (hr : s.calls.getLast? = some r) :
    s.calls[front.length]? = some r ∧ r.script = sc ∧ s.calls.length = front.length + 1 := by
  obtain ⟨calls, hcalls⟩ := List.getLast?_eq_some_iff.mp hr
  rw [hcalls, List.map_append, List.map_singleton] at hscs
  obtain ⟨hfront, hsc⟩ := List.append_inj' hscs rfl
  have hlen : front.length = calls.length := by rw [← hfront, List.length_map]
  refine ⟨?_, List.singleton_inj.mp hsc, ?_⟩
  · rw [hcalls, hlen, List.getElem?_concat_length]
  · rw [hcalls, hlen, List.length_append, List.length_singleton]

/-- The setup of a fixture fails. -/
theorem SetupOk.fail (h : SetupOk run truthy all s) {name : String}
    {rest : List (String × ResolvedFixture F)} (hs : s.main = .awaitUse name rest)
    (hr : s.calls.getLast? = some r) (hout : r.script.outcome truthy = .rejects true) (error : E) :
    SetupOk run truthy all { s with main := .tearDown (some error) s.teardowns } := by
  have hmain := h.main
  rw [hs] at hmain
  cases hmain with
  | @awaitUse front sc _ _ hscs hlen hall =>
    obtain ⟨-, rfl, -⟩ := getLast_calls hscs hr
    refine h.moveTo s.fixtures ?_ ?_ ?_
    · rw [hs]
      rfl
    · rw [hs]
      exact Nat.le_refl _
    · exact .tearDown h.teardowns (Nat.le_refl _) ⟨front, r.script, _, hscs, hlen, hall, hout⟩

/-- A fixture has been set up. -/
theorem SetupOk.provide (h : SetupOk run truthy all s) {name : String}
    {rest : List (String × ResolvedFixture F)} (hs : s.main = .awaitUse name rest)
    (hr : s.calls.getLast? = some r) (hout : (r.script.outcome truthy).provided ≠ none) :
    SetupOk run truthy all { s with
      fixtures := Function.update s.fixtures name r.script.value
      teardowns := (s.calls.length - 1) :: s.teardowns
      main := .setUp rest } := by
  have hmain := h.main
  rw [hs] at hmain
  cases hmain with
  | @awaitUse front sc _ _ hscs hlen hall =>
    obtain ⟨hlast, rfl, hcalls⟩ := getLast_calls hscs hr
    have hm : s.calls.length - 1 = s.teardowns.length := by omega
    constructor
    case calls => exact h.calls
    case resumed_lt => exact h.resumed_lt
    case resumed_mem =>
      intro j hj
      have hold := h.resumed_mem j hj
      rw [hs] at hold
      exact absurd hold.2 (Nat.not_lt.mpr hold.1)
    case sorted => exact h.sorted
    case teardowns =>
      dsimp only
      rw [List.length_cons, List.range_succ, List.reverse_append, ← h.teardowns, hm]
      rfl
    case provided =>
      intro j q hq hj
      rcases Nat.lt_succ_iff_lt_or_eq.mp hj with hj | rfl
      · exact h.provided j q hq hj
      · rw [← hlen, hlast] at hq
        obtain rfl := Option.some.inj hq
        exact hout
    case signalled =>
      intro j q hq
      have hold := h.signalled j q hq
      rw [hs] at hold
      change _ ↔ s.teardowns.length ≤ j ∧ j < s.teardowns.length at hold
      change _ ↔ s.teardowns.length + 1 ≤ j ∧ j < s.teardowns.length + 1
      rw [hold]
      omega
    case settled =>
      intro j q _ hfrom hj
      exact absurd hj (Nat.not_lt.mpr hfrom)
    case main =>
      refine .setUp ?_ hall
      rw [List.length_map, hcalls, hlen]
      rfl

/-- The value of a fixture is there. -/
theorem SetupOk.use (h : SetupOk run truthy all s) {name : String}
    {rest : List (String × ResolvedFixture F)} (hs : s.main = .awaitUse name rest)
    (hr : s.calls.getLast? = some r) {v : Option V} (hv : r.usePromise = some (.value v)) :
    SetupOk run truthy all (s.use truthy name rest r v) := by
  obtain ⟨calls, hcalls⟩ := List.getLast?_eq_some_iff.mp hr
  have hget : s.calls[calls.length]? = some r := by rw [hcalls, List.getElem?_concat_length]
  unfold ResolveState.use
  rcases (h.calls _ r hget).told hv with ⟨hfirst, herror, -⟩ | ⟨error, hfirst, hthrows, hnone, herror⟩
  · have hvalue : r.script.value = v := by
      rw [Script.value, hfirst]
      rfl
    have hout : r.script.outcome truthy = .provides v := by
      rw [Script.outcome, hfirst]
    rw [herror, Option.filter_none, Option.elim_none, ← hvalue]
    refine h.provide hs hr ?_
    rw [hout]
    exact Option.some_ne_none _
  · have hvalue : r.script.value = v := by
      rw [Script.value, hfirst]
      exact (Provided.value.inj hnone).symm
    have hout : r.script.outcome truthy = .rejects (truthy error) := by
      rw [Script.outcome, hfirst, hthrows]
      rfl
    rw [herror]
    cases htruthy : truthy error with
    | true =>
      rw [Option.filter_some, htruthy]
      refine h.fail hs hr ?_ error
      rw [hout, htruthy]
    | false =>
      rw [Option.filter_some, htruthy, ← hvalue]
      refine h.provide hs hr ?_
      rw [hout, htruthy]
      exact Option.some_ne_none _

/-- The next fixture function is called. -/
theorem SetupOk.call (h : SetupOk run truthy all s) {name : String} {fixture : ResolvedFixture F}
    {rest : List (String × ResolvedFixture F)} (hs : s.main = .setUp ((name, fixture) :: rest)) :
    SetupOk run truthy all { s with
      calls := s.calls ++ [.start (run fixture.fn s.fixtures)]
      main := .awaitUse name rest } := by
  have hmain := h.main
  rw [hs] at hmain
  cases hmain with
  | setUp hlen hall =>
    have hget : ∀ j q, (s.calls ++ [Running.start (run fixture.fn s.fixtures)])[j]? = some q →
        s.calls[j]? = some q ∨
          (j = s.calls.length ∧ q = Running.start (run fixture.fn s.fixtures)) := by
      intro j q hq
      rcases Nat.lt_or_ge j s.calls.length with hj | hj
      · rw [List.getElem?_append_left hj] at hq
        exact Or.inl hq
      · rw [List.getElem?_append_right hj, List.getElem?_singleton] at hq
        split at hq
        case isTrue hzero => exact Or.inr ⟨by omega, (Option.some.inj hq).symm⟩
        case isFalse => cases hq
    have hm : s.calls.length = s.teardowns.length := by rw [← hlen, List.length_map]
    constructor
    case calls =>
      intro j q hq
      rcases hget j q hq with hq | ⟨rfl, rfl⟩
      · exact h.calls j q hq
      · have hzero : s.resumed.count s.calls.length = 0 :=
          List.count_eq_zero.mpr fun hmem => absurd (h.resumed_lt _ hmem) (Nat.lt_irrefl _)
        dsimp only
        rw [hzero]
        exact callOk_start
    case resumed_lt =>
      intro j hj
      rw [List.length_append]
      exact Nat.lt_add_right _ (h.resumed_lt j hj)
    case resumed_mem =>
      intro j hj
      have hold := h.resumed_mem j hj
      rw [hs] at hold
      exact hold
    case sorted => exact h.sorted
    case teardowns => exact h.teardowns
    case provided =>
      intro j q hq hj
      rcases hget j q hq with hq | ⟨rfl, rfl⟩
      · exact h.provided j q hq hj
      · exact absurd hj (Nat.not_lt.mpr (Nat.le_of_eq hm.symm))
    case signalled =>
      intro j q hq
      rcases hget j q hq with hq | ⟨rfl, rfl⟩
      · have hold := h.signalled j q hq
        rw [hs] at hold
        exact hold
      · refine iff_of_false Bool.false_ne_true fun hj => ?_
        exact absurd hj.2 (Nat.not_lt.mpr (Nat.le_of_eq hm.symm))
    case settled =>
      intro j q _ hfrom hj
      exact absurd hj (Nat.not_lt.mpr hfrom)
    case main =>
      have hscs : (s.calls ++ [Running.start (run fixture.fn s.fixtures)]).map (·.script) =
          s.calls.map (·.script) ++ [run fixture.fn s.fixtures] := List.map_append
      refine .awaitUse hscs hlen ?_
      rw [hscs, ← hall, List.append_assoc]
      rfl

/-- The next fixture is given the signal. -/
theorem SetupOk.signal (h : SetupOk run truthy all s) {error : Option E} {todo : List ℕ}
    (hs : s.main = .tearDown error (i :: todo)) :
    SetupOk run truthy all { s with
      calls := s.calls.modify i fun r => { r with teardown := true }
      main := .awaitFixture error i todo } := by
  have hmain := h.main
  rw [hs] at hmain
  cases hmain with
  | tearDown htodo hle hended =>
    have hrange : (List.range (todo.length + 1)).reverse =
        todo.length :: (List.range todo.length).reverse := by
      rw [List.range_succ, List.reverse_append]
      rfl
    rw [List.length_cons, hrange] at htodo
    obtain ⟨rfl, htail⟩ := List.cons.inj htodo
    have hget : ∀ j q, (s.calls.modify todo.length fun r => { r with teardown := true })[j]? = some q →
        ∃ p, s.calls[j]? = some p ∧
          q = if todo.length = j then { p with teardown := true } else p := by
      intro j q hq
      rw [List.getElem?_modify] at hq
      obtain ⟨p, hp, hpq⟩ := Option.map_eq_some_iff.mp hq
      refine ⟨p, hp, hpq.symm.trans ?_⟩
      split
      · rfl
      · rfl
    have hmap : (s.calls.modify todo.length fun r => { r with teardown := true }).map (·.script) =
        s.calls.map (·.script) := by
      ext1 j
      rw [List.getElem?_map, List.getElem?_map, List.getElem?_modify]
      cases s.calls[j]? with
      | none => rfl
      | some p =>
        dsimp only [Option.map_eq_map, Option.map_some]
        split
        · rfl
        · rfl
    constructor
    case calls =>
      intro j q hq
      obtain ⟨p, hp, rfl⟩ := hget j q hq
      split
      · exact (h.calls j p hp).signal
      · exact h.calls j p hp
    case resumed_lt =>
      intro j hj
      rw [List.length_modify]
      exact h.resumed_lt j hj
    case resumed_mem =>
      intro j hj
      have hold := h.resumed_mem j hj
      rw [hs] at hold
      exact ⟨Nat.le_of_succ_le hold.1, hold.2⟩
    case sorted => exact h.sorted
    case teardowns => exact h.teardowns
    case provided =>
      intro j q hq hj
      obtain ⟨p, hp, rfl⟩ := hget j q hq
      split
      · exact h.provided j p hp hj
      · exact h.provided j p hp hj
    case signalled =>
      intro j q hq
      obtain ⟨p, hp, rfl⟩ := hget j q hq
      have hold := h.signalled j p hp
      rw [hs] at hold
      change _ ↔ todo.length + 1 ≤ j ∧ j < s.teardowns.length at hold
      change _ ↔ todo.length ≤ j ∧ j < s.teardowns.length
      split
      case isTrue hj =>
        refine iff_of_true rfl ⟨Nat.le_of_eq hj, hj ▸ hle⟩
      case isFalse hj =>
        rw [hold]
        omega
    case settled =>
      intro j q hq hfrom hj
      obtain ⟨p, hp, rfl⟩ := hget j q hq
      have hold := h.settled j p hp
      rw [hs] at hold
      have hne : ¬ todo.length = j := by
        intro heq
        exact absurd hfrom (Nat.not_le.mpr (heq ▸ Nat.lt_succ_self _))
      rw [if_neg hne]
      exact hold hfrom hj
    case main =>
      dsimp only
      rw [hmap]
      exact .awaitFixture htail hle hended

/-- A fixture has been torn down. -/
theorem SetupOk.tornDown (h : SetupOk run truthy all s) {error : Option E} {todo : List ℕ}
    (hs : s.main = .awaitFixture error i todo) (hr : s.calls[i]? = some r)
    (hsettled : r.settled = true) :
    SetupOk run truthy all { s with main := .tearDown error todo } := by
  have hmain := h.main
  rw [hs] at hmain
  cases hmain with
  | awaitFixture htodo hlt hended =>
    have hlen : todo.length = i := by rw [htodo, List.length_reverse, List.length_range]
    constructor
    case calls => exact h.calls
    case resumed_lt => exact h.resumed_lt
    case resumed_mem =>
      intro j hj
      have hold := h.resumed_mem j hj
      rw [hs] at hold
      refine ⟨?_, hold.2⟩
      change todo.length ≤ j
      rw [hlen]
      exact hold.1
    case sorted => exact h.sorted
    case teardowns => exact h.teardowns
    case provided => exact h.provided
    case signalled =>
      intro j q hq
      have hold := h.signalled j q hq
      rw [hs] at hold
      change _ ↔ todo.length ≤ j ∧ j < s.teardowns.length
      rw [hlen]
      exact hold
    case settled =>
      intro j q hq hfrom hj
      have hold := h.settled j q hq
      rw [hs] at hold
      change todo.length ≤ j at hfrom
      rcases Nat.eq_or_lt_of_le (hlen ▸ hfrom) with rfl | hlt
      · rw [hr] at hq
        obtain rfl := Option.some.inj hq
        exact hsettled
      · exact hold hlt hj
    case main =>
      refine .tearDown ?_ ?_ hended
      · rw [hlen]
        exact htodo
      · exact hlen ▸ Nat.le_of_lt hlt

/-- A step of `resolveFixtures`, or of the teardown. -/
theorem SetupOk.stepMain (h : SetupOk run truthy all s)
    (hstep : s.step run truthy .main = some s') : SetupOk run truthy all s' := by
  change s.stepMain run truthy = some s' at hstep
  unfold ResolveState.stepMain at hstep
  have hmain := h.main
  split at hstep
  case h_1 hs =>
    cases hstep
    rw [hs] at hmain
    cases hmain with
    | setUp hlen hall =>
      refine h.moveTo s.fixtures ?_ ?_ (.resolved ⟨hlen, ?_⟩)
      · rw [hs]
        rfl
      · rw [hs]
        exact Nat.le_refl _
      · rw [← hall]
        exact (List.append_nil _).symm
  case h_2 name fixture rest hs =>
    cases hstep
    exact h.call hs
  case h_3 name rest hs =>
    obtain ⟨r, hr, hstep⟩ := Option.bind_eq_some_iff.mp hstep
    obtain ⟨p, hp, hstep⟩ := Option.bind_eq_some_iff.mp hstep
    cases p with
    | value v =>
      cases hstep
      exact h.use hs hr hp
    | rejects error =>
      cases hstep
      refine h.fail hs hr ?_ error
      obtain ⟨calls, hcalls⟩ := List.getLast?_eq_some_iff.mp hr
      have hget : s.calls[calls.length]? = some r := by rw [hcalls, List.getElem?_concat_length]
      rcases (h.calls _ r hget).told hp with ⟨hfirst, -⟩ | ⟨_, -, -, hvalue, -⟩
      · rw [Script.outcome, hfirst]
      · cases hvalue
    | pending => cases hstep
  case h_4 hs =>
    cases hstep
    rw [hs] at hmain
    cases hmain with
    | resolved hended =>
      refine h.moveTo s.fixtures ?_ ?_ (.tearDown h.teardowns (Nat.le_refl _) hended)
      · rw [hs]
        rfl
      · rw [hs]
        exact Nat.le_refl _
  case h_5 error hs =>
    cases hstep
    rw [hs] at hmain
    cases hmain with
    | tearDown htodo hle hended =>
      refine h.moveTo s.fixtures ?_ ?_ (.finished hended)
      · rw [hs]
        rfl
      · rw [hs]
        exact Nat.le_refl _
  case h_6 error i todo hs =>
    cases hstep
    exact h.signal hs
  case h_7 error i todo hs =>
    obtain ⟨r, hr, hstep⟩ := Option.bind_eq_some_iff.mp hstep
    split at hstep
    case isTrue hsettled =>
      cases hstep
      exact h.tornDown hs hr hsettled
    case isFalse => cases hstep
  case h_8 => cases hstep

/-- What every step keeps, every run keeps. -/
theorem setupOk_of_run {baseFixtures : Env V} {fixtures : List (String × ResolvedFixture F)}
    {actors : List Actor}
    (hrun : Run (fun s actor s' => s.step run truthy actor = some s')
      (ResolveState.start baseFixtures fixtures) actors s) :
    SetupOk run truthy (scripts run baseFixtures fixtures) s := by
  refine hrun.invariant (fun s actor s' h hstep => ?_) setupOk_start
  cases actor with
  | main => exact h.stepMain hstep
  | fixture i => exact h.fixture hstep

end Setup

end Tapsmith.Fixture
