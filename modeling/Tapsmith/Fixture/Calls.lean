import Mathlib.Data.List.Basic
import Tapsmith.Fixture.Coroutine

namespace Tapsmith.Fixture

/-!
# A fixture function that is under way

What a call of a fixture function knows of the function, however far it is.

* `CallOk` — what the function has done is what `resolveFixtures` has noted, and it has been resumed
  as often as it waited;
* `CallOk.advance` — the call goes on;
* `CallOk.told`, `CallOk.blocked`, `CallOk.settled` — what can be told from it.
-/

variable {F V E : Type} {r r' : Running V E} {n : ℕ} {resumes : Bool}

/-! ### One call -/

/-- The error with which the call has ended. -/
def Running.ending (r : Running V E) : Option E := if r.settled then r.script.throws else none

/-- What is known of a call that has done `done` and has been resumed `n` times. -/
structure CallDone (r : Running V E) (n : ℕ) (done : List (Act V E)) : Prop where
  acts : r.script.acts = done ++ r.acts
  hasUsed : r.hasUsed = (firstUse done).isSome
  usePromise : r.usePromise = (firstUse done).or (r.ending.map fun _ => .value none)
  fixtureError : r.fixtureError = if r.hasUsed then none else r.ending
  settled : r.settled = true → r.acts = [] ∧ r.suspended = false
  awaits : n + r.suspended.toNat = awaits done
  signalled : r.teardown = false → n = 0

def CallOk (r : Running V E) (n : ℕ) : Prop := ∃ done, CallDone r n done

theorem callOk_start {script : Script V E} : CallOk (.start script) 0 := by
  refine ⟨[], ?_⟩
  constructor
  · rfl
  · rfl
  · rfl
  · rfl
  · exact fun h => Bool.noConfusion h
  · rfl
  · exact fun _ => rfl

theorem CallOk.signal (h : CallOk r n) : CallOk { r with teardown := true } n := by
  obtain ⟨done, h⟩ := h
  exact ⟨done, h.acts, h.hasUsed, h.usePromise, h.fixtureError, h.settled, h.awaits,
    fun h => Bool.noConfusion h⟩

theorem firstUse_append {done acts : List (Act V E)} :
    firstUse (done ++ acts) = (firstUse done).or (firstUse acts) := List.findSome?_append

theorem awaits_append {done acts : List (Act V E)} :
    awaits (done ++ acts) = awaits done + awaits acts := List.countP_append

/-- What one step of a call can be. -/
theorem advance_cases (h : r.advance = some (r', resumes)) : r.settled = false ∧
    ((r.suspended = true ∧ r.teardown = true ∧ resumes = true ∧ r' = { r with suspended := false }) ∨
      (r.suspended = false ∧ r.acts = [] ∧ resumes = false ∧ r' = r.settle) ∨
      (∃ acts, r.suspended = false ∧ r.acts = .other :: acts ∧ resumes = false ∧
        r' = { r with acts }) ∨
      ∃ provided awaited acts, r.suspended = false ∧ r.acts = .use provided awaited :: acts ∧
        resumes = false ∧
        r' = ({ r with acts, hasUsed := true, suspended := awaited }).resolveUse provided) := by
  unfold Running.advance at h
  cases hsettled : r.settled with
  | true =>
    rw [hsettled, if_pos rfl] at h
    cases h
  | false =>
    rw [hsettled, if_neg Bool.false_ne_true] at h
    refine ⟨rfl, ?_⟩
    cases hsuspended : r.suspended with
    | true =>
      rw [hsuspended, if_pos rfl] at h
      split at h
      case isTrue hteardown =>
        cases h
        exact Or.inl ⟨rfl, hteardown, rfl, rfl⟩
      case isFalse => cases h
    | false =>
      rw [hsuspended, if_neg Bool.false_ne_true] at h
      split at h
      case h_1 hacts =>
        cases h
        exact Or.inr (Or.inl ⟨rfl, hacts, rfl, rfl⟩)
      case h_2 acts hacts =>
        cases h
        exact Or.inr (Or.inr (Or.inl ⟨acts, rfl, hacts, rfl, rfl⟩))
      case h_3 provided awaited acts hacts =>
        cases h
        exact Or.inr (Or.inr (Or.inr ⟨provided, awaited, acts, rfl, hacts, rfl, rfl⟩))

/-- A call never changes its function, nor takes back or gives itself the signal. -/
theorem advance_keeps (h : r.advance = some (r', resumes)) :
    r'.script = r.script ∧ r'.teardown = r.teardown := by
  obtain ⟨-, ⟨-, -, -, rfl⟩ | ⟨-, -, -, rfl⟩ | ⟨_, -, -, -, rfl⟩ | ⟨_, _, _, -, -, -, rfl⟩⟩ :=
    advance_cases h
  · exact ⟨rfl, rfl⟩
  · unfold Running.settle
    cases r.script.throws with
    | none => exact ⟨rfl, rfl⟩
    | some error =>
      dsimp only [Option.elim_some]
      split
      · exact ⟨rfl, rfl⟩
      · exact ⟨rfl, rfl⟩
  · exact ⟨rfl, rfl⟩
  · exact ⟨rfl, rfl⟩

theorem CallDone.settle {done : List (Act V E)} (h : CallDone r n done) (hacts : r.acts = [])
    (hsuspended : r.suspended = false) (hsettled : r.settled = false) :
    CallDone r.settle n done := by
  have hending : r.ending = none := by
    rw [Running.ending, hsettled]
    rfl
  have hpromise : r.usePromise = firstUse done := by
    rw [h.usePromise, hending, Option.map_none, Option.or_none]
  have herror : r.fixtureError = none := by
    rw [h.fixtureError, hending, ite_self]
  unfold Running.settle
  cases hthrows : r.script.throws with
  | none =>
    dsimp only [Option.elim_none]
    have hending' : Running.ending { r with settled := true } = none := hthrows
    refine ⟨h.acts, h.hasUsed, ?_, ?_, fun _ => ⟨hacts, hsuspended⟩, h.awaits, h.signalled⟩
    · rw [hending', Option.map_none, Option.or_none]
      exact hpromise
    · rw [hending', ite_self]
      exact herror
  | some error =>
    dsimp only [Option.elim_some]
    split
    case isTrue hused =>
      obtain ⟨p, hp⟩ := Option.isSome_iff_exists.mp (h.hasUsed ▸ hused)
      refine ⟨h.acts, h.hasUsed, ?_, ?_, fun _ => ⟨hacts, hsuspended⟩, h.awaits, h.signalled⟩
      · rw [hp, Option.some_or]
        exact hpromise.trans hp
      · rw [if_pos hused]
        exact herror
    case isFalse hunused =>
      have hnone : firstUse done = none := by
        rw [h.hasUsed, Bool.not_eq_true, Option.isSome_eq_false_iff, Option.isNone_iff_eq_none]
          at hunused
        exact hunused
      refine ⟨h.acts, h.hasUsed, ?_, ?_, fun _ => ⟨hacts, hsuspended⟩, h.awaits, h.signalled⟩
      · change r.usePromise.or (some (.value none)) =
          (firstUse done).or (r.script.throws.map fun _ => .value none)
        rw [hpromise, hthrows]
        rfl
      · change some error = if r.hasUsed then none else r.script.throws
        rw [if_neg hunused, hthrows]

/-- What a step of the call itself keeps. -/
theorem CallOk.advance (h : CallOk r n) (hstep : r.advance = some (r', resumes)) :
    CallOk r' (n + resumes.toNat) := by
  obtain ⟨done, h⟩ := h
  obtain ⟨hsettled, hcases⟩ := advance_cases hstep
  have hending : r.ending = none := by
    rw [Running.ending, hsettled]
    rfl
  have hpromise : r.usePromise = firstUse done := by
    rw [h.usePromise, hending, Option.map_none, Option.or_none]
  have herror : r.fixtureError = none := by
    rw [h.fixtureError, hending, ite_self]
  rcases hcases with ⟨hsuspended, hteardown, rfl, rfl⟩ | ⟨hsuspended, hacts, rfl, rfl⟩ |
    ⟨acts, hsuspended, hacts, rfl, rfl⟩ | ⟨provided, awaited, acts, hsuspended, hacts, rfl, rfl⟩
  · have hawaits := h.awaits
    rw [hsuspended] at hawaits
    refine ⟨done, h.acts, h.hasUsed, h.usePromise, h.fixtureError, ?_, hawaits, ?_⟩
    · exact fun h => absurd (hsettled.symm.trans h) Bool.false_ne_true
    · exact fun h => absurd (h.symm.trans hteardown) Bool.false_ne_true
  · exact ⟨done, h.settle hacts hsuspended hsettled⟩
  · have hfirst : firstUse (done ++ [.other]) = firstUse done := by
      rw [firstUse_append]
      exact Option.or_none
    have hawaits := h.awaits
    refine ⟨done ++ [.other], ?_, ?_, ?_, h.fixtureError, ?_, ?_, h.signalled⟩
    · rw [h.acts, hacts, List.append_assoc, List.singleton_append]
    · rw [hfirst]
      exact h.hasUsed
    · rw [hfirst]
      exact h.usePromise
    · exact fun h => absurd (hsettled.symm.trans h) Bool.false_ne_true
    · rw [awaits_append]
      exact hawaits
  · have hfirst : firstUse (done ++ [.use provided awaited]) =
        (firstUse done).or (some provided) := firstUse_append
    have hawaits := h.awaits
    rw [hsuspended] at hawaits
    refine ⟨done ++ [.use provided awaited], ?_, ?_, ?_, ?_, ?_, ?_, h.signalled⟩
    · change r.script.acts = done ++ [.use provided awaited] ++ acts
      rw [h.acts, hacts, List.append_assoc, List.singleton_append]
    · rw [hfirst]
      cases firstUse done with
      | none => rfl
      | some p => rfl
    · change r.usePromise.or (some provided) = _
      rw [hfirst, hpromise]
      change _ = ((firstUse done).or (some provided)).or (r.ending.map fun _ => .value none)
      rw [hending, Option.map_none, Option.or_none]
    · exact herror
    · exact fun h => absurd (hsettled.symm.trans h) Bool.false_ne_true
    · rw [awaits_append]
      change n + awaited.toNat = awaits done + awaits [.use provided awaited]
      have hone : awaits [.use (E := E) (V := V) provided awaited] = awaited.toNat := by
        cases awaited <;> rfl
      rw [hone, ← hawaits]
      rfl

/-! ### What a call tells -/

/-- What `usePromise` holds tells how the function comes out. -/
theorem CallOk.told (h : CallOk r n) {p : Provided V E} (hp : r.usePromise = some p) :
    (firstUse r.script.acts = some p ∧ r.fixtureError = none ∧ r.hasUsed = true) ∨
      ∃ error, firstUse r.script.acts = none ∧ r.script.throws = some error ∧
        p = .value none ∧ r.fixtureError = some error := by
  obtain ⟨done, h⟩ := h
  rw [h.usePromise] at hp
  cases hfirst : firstUse done with
  | some q =>
    rw [hfirst, Option.some_or] at hp
    have hused : r.hasUsed = true := by
      rw [h.hasUsed, hfirst]
      rfl
    refine Or.inl ⟨?_, ?_, hused⟩
    · rw [h.acts, firstUse_append, hfirst, Option.some_or]
      exact hp
    · rw [h.fixtureError, if_pos hused]
  | none =>
    have hunused : r.hasUsed = false := by
      rw [h.hasUsed, hfirst]
      rfl
    rw [hfirst, Option.none_or] at hp
    obtain ⟨error, hending, hvalue⟩ := Option.map_eq_some_iff.mp hp
    have hsettled : r.settled = true := by
      by_contra hne
      rw [Running.ending, if_neg hne] at hending
      cases hending
    have herror := h.fixtureError
    rw [hunused, if_neg Bool.false_ne_true, hending] at herror
    rw [Running.ending, if_pos hsettled] at hending
    refine Or.inr ⟨error, ?_, hending, hvalue.symm, herror⟩
    rw [h.acts, firstUse_append, hfirst, (h.settled hsettled).1]
    rfl

/-- A call that has ended has been resumed as often as it waited. -/
theorem CallOk.settled (h : CallOk r n) (hsettled : r.settled = true) :
    n = awaits r.script.acts := by
  obtain ⟨done, h⟩ := h
  obtain ⟨hacts, hsuspended⟩ := h.settled hsettled
  have hawaits := h.awaits
  rw [hsuspended] at hawaits
  rw [h.acts, hacts, List.append_nil, ← hawaits]
  rfl

theorem CallOk.signalled (h : CallOk r n) (hsignal : r.teardown = false) : n = 0 := by
  obtain ⟨done, h⟩ := h
  exact h.signalled hsignal

/-- A call that cannot go on has ended, or it waits for the signal in a `use`. -/
theorem CallOk.blocked (h : CallOk r n) (hblocked : r.advance = none) :
    r.settled = true ∨ (r.teardown = false ∧ r.usePromise ≠ none ∧ r.hasUsed = true) := by
  obtain ⟨done, h⟩ := h
  unfold Running.advance at hblocked
  cases hsettled : r.settled with
  | true => exact Or.inl rfl
  | false =>
    rw [hsettled, if_neg Bool.false_ne_true] at hblocked
    cases hsuspended : r.suspended with
    | true =>
      rw [hsuspended, if_pos rfl] at hblocked
      have hawaits := h.awaits
      rw [hsuspended] at hawaits
      have hfirst : firstUse done ≠ none := by
        intro hnone
        have hzero : awaits done = 0 := by
          refine List.countP_eq_zero.mpr fun act hact => ?_
          have hact' := List.findSome?_eq_none_iff.mp hnone act hact
          cases act with
          | use provided awaited => cases hact'
          | other => exact Bool.false_ne_true
        rw [hzero] at hawaits
        exact absurd hawaits (Nat.succ_ne_zero n)
      obtain ⟨p, hp⟩ := Option.ne_none_iff_exists'.mp hfirst
      refine Or.inr ⟨?_, ?_, ?_⟩
      · by_contra hsignal
        rw [if_pos (Bool.not_eq_false _ ▸ hsignal)] at hblocked
        cases hblocked
      · rw [h.usePromise, hp, Option.some_or]
        exact Option.some_ne_none p
      · rw [h.hasUsed, hp]
        rfl
    | false =>
      rw [hsuspended, if_neg Bool.false_ne_true] at hblocked
      split at hblocked <;> cases hblocked

/-- A call that has ended without an error and without a value hangs its caller. -/
theorem CallOk.ended (h : CallOk r n) (hsettled : r.settled = true) (hpromise : r.usePromise = none) :
    firstUse r.script.acts = none ∧ r.script.throws = none := by
  obtain ⟨done, h⟩ := h
  rw [h.usePromise, Option.or_eq_none_iff, Option.map_eq_none_iff, Running.ending,
    if_pos hsettled] at hpromise
  refine ⟨?_, hpromise.2⟩
  rw [h.acts, (h.settled hsettled).1, List.append_nil]
  exact hpromise.1

/-- A call that has called `use` has one in its function. -/
theorem CallOk.used (h : CallOk r n) (hused : r.hasUsed = true) :
    firstUse r.script.acts ≠ none := by
  obtain ⟨done, h⟩ := h
  rw [h.hasUsed] at hused
  obtain ⟨p, hp⟩ := Option.isSome_iff_exists.mp hused
  rw [h.acts, firstUse_append, hp, Option.some_or]
  exact Option.some_ne_none p

theorem awaits_of_firstUse {acts : List (Act V E)} (h : firstUse acts = none) :
    awaits acts = 0 := by
  refine List.countP_eq_zero.mpr fun act hact => ?_
  have hnone := List.findSome?_eq_none_iff.mp h act hact
  cases act with
  | use provided awaited => cases hnone
  | other => exact Bool.false_ne_true

theorem CallOk.settled_used (h : CallOk r n) (hsettled : r.settled = true) :
    r.hasUsed = (firstUse r.script.acts).isSome := by
  obtain ⟨done, h⟩ := h
  rw [h.acts, (h.settled hsettled).1, List.append_nil]
  exact h.hasUsed

/-- A call that has thrown before `use`, where a value was made of it. -/
theorem CallOk.threwFalsy {truthy : E → Bool} (h : CallOk r n) (hsettled : r.settled = true)
    (hprovided : (r.script.outcome truthy).provided ≠ none) :
    (r.hasUsed = false ∧ r.script.throws ≠ none) ↔ r.script.outcome truthy = .rejects false := by
  rw [h.settled_used hsettled]
  unfold Script.outcome at hprovided ⊢
  cases hfirst : firstUse r.script.acts with
  | some p =>
    refine iff_of_false (fun hused => Bool.noConfusion hused.1) ?_
    cases p with
    | value v => exact fun hout => by cases hout
    | rejects error => exact fun hout => by cases hout
    | pending => exact fun hout => by cases hout
  | none =>
    rw [hfirst] at hprovided
    cases hthrows : r.script.throws with
    | none => exact iff_of_false (fun hused => hused.2 rfl) fun hout => by cases hout
    | some error =>
      rw [hthrows] at hprovided
      refine iff_of_true ⟨rfl, Option.some_ne_none _⟩ ?_
      cases htruthy : truthy error with
      | true => exact absurd (congrArg (fun t => (Outcome.rejects t).provided) htruthy) hprovided
      | false => exact congrArg Outcome.rejects htruthy

end Tapsmith.Fixture
