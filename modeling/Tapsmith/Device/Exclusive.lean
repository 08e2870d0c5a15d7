import Tapsmith.Device.Claims
import Tapsmith.Lib.Machine

namespace Tapsmith.Device

open Lib.Machine

/-!
# Device claims are exclusive

* `Holds` — who holds a device, read off the events: who has got it and has not given it back;
* `ClaimInv` — the live holders of a device are the live processes that its record lists, and they
  are of one session;
* `claimDevice_exclusive` — so no other session gets a device that a live process holds, no process
  takes the hold of another, and a device that nobody holds is to be had.
-/

/-! ### Who holds a device -/

def Event.Grants (p : ProcessRef) (device : String) : Event → Prop
  | .claim q d _ _ (.ok _) => q = p ∧ d = device
  | _ => False

def Event.Returns (p : ProcessRef) (device : String) : Event → Prop
  | .release q d => q = p ∧ d = device
  | _ => False

/-- The process has got the device and has not given it back since. -/
def Holds (es : List Event) (p : ProcessRef) (device : String) : Prop :=
  ∃ before e after, es = before ++ e :: after ∧ e.Grants p device ∧
    ∀ f ∈ after, ¬ f.Returns p device

/-- The process is listed as a holder of the claim of the device, under its own session. -/
def Listed (sessionOf : ProcessRef → SessionIdentity) (s : Machine) (p : ProcessRef)
    (device : String) : Prop :=
  ∃ claim holders, s.registry device = some claim ∧ claim.session.id = (sessionOf p).id ∧
    claim.holders = some holders ∧ p ∈ holders

section Holding

variable {es : List Event} {e : Event} {p : ProcessRef} {device : String}

theorem holds_snoc : Holds (es ++ [e]) p device ↔
    e.Grants p device ∨ Holds es p device ∧ ¬ e.Returns p device := by
  constructor
  · rintro ⟨before, f, after, hes, hgrants, hkept⟩
    rcases List.eq_nil_or_concat after with rfl | ⟨front, last, rfl⟩
    · obtain ⟨-, hlast⟩ := List.append_inj' hes rfl
      rw [List.singleton_inj.mp hlast]
      exact .inl hgrants
    · rw [List.concat_eq_append, ← List.cons_append, ← List.append_assoc] at hes
      obtain ⟨rfl, hlast⟩ := List.append_inj' hes rfl
      obtain rfl := List.singleton_inj.mp hlast
      refine .inr ⟨⟨before, f, front, rfl, hgrants, fun g hg => hkept g ?_⟩, hkept _ ?_⟩
      · simp [hg]
      · simp
  · rintro (hgrants | ⟨⟨before, f, after, rfl, hgrants, hkept⟩, hnot⟩)
    · exact ⟨es, e, [], rfl, hgrants, nofun⟩
    · refine ⟨before, f, after ++ [e], by simp, hgrants, ?_⟩
      intro g hg
      rcases List.mem_append.mp hg with hg | hg
      · exact hkept g hg
      · rw [List.mem_singleton.mp hg]
        exact hnot

end Holding

/-! ### What holds between the steps -/

structure ClaimInv (sessionOf : ProcessRef → SessionIdentity) (es : List Event) (s : Machine) :
    Prop where
  pids : ∀ p q, s.alive p = true → s.alive q = true → p.pid = q.pid → p = q
  started : ∀ p, s.alive p = true → s.started p = true
  held : ∀ p device, Holds es p device → s.started p = true
  listed : ∀ p device, s.alive p = true → Holds es p device → Listed sessionOf s p device
  honest : ∀ device claim, s.registry device = some claim →
    ∃ holders, claim.holders = some holders ∧ holders ≠ [] ∧
      ∀ h ∈ holders, s.started h = true ∧
        (s.alive h = true → Holds es h device ∧ (sessionOf h).id = claim.session.id)

section Inv

variable {sessionOf : ProcessRef → SessionIdentity} {es : List Event} {e : Event}
  {s s' : Machine} {p q : ProcessRef} {device now : String} {daemonAddress : Option String}

/-- A claim with a live holder is live. -/
theorem claimIsLive_of_mem {processIsLive : ProcessRef → Bool} {claim : DeviceClaim}
    {holders : List ProcessRef} (hholders : claim.holders = some holders) (hp : p ∈ holders)
    (hlive : processIsLive p = true) : claimIsLive processIsLive claim = true := by
  unfold claimIsLive
  rw [hholders, Option.getD_some, if_neg (List.ne_nil_of_mem hp)]
  exact List.any_eq_true.mpr ⟨p, hp, hlive⟩

/-- **A claim** leaves the record alone, or there was no live one of another session. -/
theorem claimDevice_cases (processIsLive : ProcessRef → Bool) (p : ProcessRef) (now device : String)
    (session : SessionIdentity) (daemonAddress : Option String) (existing : Option DeviceClaim) :
    (∃ claim, existing = some claim ∧ claim.session.id ≠ session.id ∧
      claimIsLive processIsLive claim = true ∧
      claimDevice processIsLive p now device session daemonAddress existing =
        (existing, .refused claim)) ∨
    ((∀ claim, existing = some claim → claimIsLive processIsLive claim = true →
        claim.session.id = session.id) ∧
      ∃ fresh, claimDevice processIsLive p now device session daemonAddress existing =
        (some (joinedClaim processIsLive p now device session daemonAddress existing),
          .ok fresh)) := by
  cases existing with
  | none => exact .inr ⟨nofun, true, rfl⟩
  | some claim =>
    by_cases hrefused : claim.session.id ≠ session.id ∧ claimIsLive processIsLive claim = true
    · exact .inl ⟨claim, rfl, hrefused.1, hrefused.2, if_pos hrefused⟩
    · refine .inr ⟨?_, _, if_neg hrefused⟩
      intro claim' heq hlive
      cases heq
      by_contra hne
      exact hrefused ⟨hne, hlive⟩

/-- The holders of the record that a claim writes. -/
theorem mem_joinedClaim {processIsLive : ProcessRef → Bool} {session : SessionIdentity}
    {existing : Option DeviceClaim} {h : ProcessRef} :
    (∃ holders, (joinedClaim processIsLive p now device session daemonAddress existing).holders =
        some holders ∧ h ∈ holders) ↔
      h = p ∨ h.pid ≠ p.pid ∧ processIsLive h = true ∧ ∃ claim holders, existing = some claim ∧
        claim.session.id = session.id ∧ claim.holders = some holders ∧ h ∈ holders := by
  unfold joinedClaim
  dsimp only
  simp only [Option.some_inj, exists_eq_left', List.mem_append, List.mem_filter,
    List.mem_singleton, Bool.and_eq_true, decide_eq_true_eq]
  rw [or_comm]
  refine or_congr Iff.rfl ?_
  have hmem : h ∈ (((existing.filter fun claim => claim.session.id = session.id).bind
      DeviceClaim.holders).getD []) ↔ ∃ claim holders, existing = some claim ∧
        claim.session.id = session.id ∧ claim.holders = some holders ∧ h ∈ holders := by
    cases existing with
    | none => simp
    | some claim =>
      by_cases hsame : claim.session.id = session.id
      · cases hholders : claim.holders <;> simp [Option.filter, hsame, hholders]
      · simp [Option.filter, hsame]
  rw [hmem]
  tauto

/-- What is left when a process gives a device back. -/
theorem mem_releaseDeviceClaim {processIsLive : ProcessRef → Bool} {session : SessionIdentity}
    {existing : Option DeviceClaim} {claim : DeviceClaim}
    (h : releaseDeviceClaim processIsLive p session existing = some claim) :
    (existing = some claim ∧ claim.session.id ≠ session.id) ∨
      ∃ old, existing = some old ∧ claim.session = old.session ∧ ∃ holders,
        claim.holders = some holders ∧ holders ≠ [] ∧
        holders = (old.holders.getD []).filter fun h => h.pid ≠ p.pid && processIsLive h := by
  cases existing with
  | none => cases h
  | some old =>
    unfold releaseDeviceClaim at h
    dsimp only at h
    split at h
    case isTrue hne =>
      cases h
      exact .inl ⟨rfl, hne⟩
    case isFalse =>
      split at h
      case isTrue => cases h
      case isFalse hremaining =>
        cases h
        exact .inr ⟨old, rfl, rfl, _, rfl, hremaining, rfl⟩

/-- A step that is about the processes only. -/
theorem holds_snoc_of_neither (hgrants : ¬ e.Grants p device) (hreturns : ¬ e.Returns p device) :
    Holds (es ++ [e]) p device ↔ Holds es p device := by
  rw [holds_snoc]
  exact ⟨fun h => (h.resolve_left hgrants).1, fun h => .inr ⟨h, hreturns⟩⟩

theorem ClaimInv.start (h : ClaimInv sessionOf es s) (hnew : s.started p = false)
    (hpid : ∀ q, s.alive q = true → q.pid ≠ p.pid) :
    ClaimInv sessionOf (es ++ [.start p]) { s with
      alive := Function.update s.alive p true, started := Function.update s.started p true } := by
  have hholds : ∀ q device, Holds (es ++ [.start p]) q device ↔ Holds es q device :=
    fun q device => holds_snoc_of_neither id id
  have holder : ∀ q, s.started q = true → q ≠ p := by
    rintro q hq rfl
    exact absurd (hnew.symm.trans hq) nofun
  have halive : ∀ q, q ≠ p → (Function.update s.alive p true q = true ↔ s.alive q = true) := by
    intro q hne
    rw [Function.update_of_ne hne]
  have hstarted : ∀ q, s.started q = true → Function.update s.started p true q = true := by
    intro q hq
    rw [Function.update_of_ne (holder q hq)]
    exact hq
  refine ⟨?_, ?_, ?_, ?_, ?_⟩
  · intro q r hq hr hqr
    by_cases hqp : q = p
    · by_cases hrp : r = p
      · rw [hqp, hrp]
      · rw [hqp] at hqr
        exact absurd hqr.symm (hpid r ((halive r hrp).mp hr))
    · by_cases hrp : r = p
      · rw [hrp] at hqr
        exact absurd hqr (hpid q ((halive q hqp).mp hq))
      · exact h.pids q r ((halive q hqp).mp hq) ((halive r hrp).mp hr) hqr
  · intro q hq
    by_cases hqp : q = p
    · subst hqp
      exact Function.update_self _ _ _
    · exact hstarted q (h.started q ((halive q hqp).mp hq))
  · intro q device hq
    exact hstarted q (h.held q device ((hholds q device).mp hq))
  · intro q device hq hheld
    rw [hholds] at hheld
    exact h.listed q device ((halive q (holder q (h.held q device hheld))).mp hq) hheld
  · intro device claim hclaim
    obtain ⟨holders, hholders, hne, hall⟩ := h.honest device claim hclaim
    refine ⟨holders, hholders, hne, fun q hq => ⟨hstarted q (hall q hq).1, fun hlive => ?_⟩⟩
    rw [hholds]
    exact (hall q hq).2 ((halive q (holder q (hall q hq).1)).mp hlive)

theorem ClaimInv.die (h : ClaimInv sessionOf es s) :
    ClaimInv sessionOf (es ++ [.die p]) { s with alive := Function.update s.alive p false } := by
  have hholds : ∀ q device, Holds (es ++ [.die p]) q device ↔ Holds es q device :=
    fun q device => holds_snoc_of_neither id id
  have halive : ∀ q, Function.update s.alive p false q = true → s.alive q = true := by
    intro q hq
    by_cases hqp : q = p
    · subst hqp
      rw [Function.update_self] at hq
      cases hq
    · rwa [Function.update_of_ne hqp] at hq
  refine ⟨fun q r hq hr => h.pids q r (halive q hq) (halive r hr),
    fun q hq => h.started q (halive q hq), fun q device hq => h.held q device ((hholds _ _).mp hq),
    fun q device hq hheld => h.listed q device (halive q hq) ((hholds _ _).mp hheld), ?_⟩
  intro device claim hclaim
  obtain ⟨holders, hholders, hne, hall⟩ := h.honest device claim hclaim
  refine ⟨holders, hholders, hne, fun q hq => ⟨(hall q hq).1, fun hlive => ?_⟩⟩
  rw [hholds]
  exact (hall q hq).2 (halive q hlive)

/-- A step that changes the record of one device: what is left to show is about that device. -/
theorem ClaimInv.setClaim (h : ClaimInv sessionOf es s) {claim : Option DeviceClaim}
    (hother : ∀ q d, d ≠ device → (Holds (es ++ [e]) q d ↔ Holds es q d))
    (hheld : ∀ q, Holds (es ++ [e]) q device → s.started q = true)
    (hlisted : ∀ q, s.alive q = true → Holds (es ++ [e]) q device →
      ∃ c holders, claim = some c ∧ c.session.id = (sessionOf q).id ∧ c.holders = some holders ∧
        q ∈ holders)
    (hhonest : ∀ c, claim = some c → ∃ holders, c.holders = some holders ∧ holders ≠ [] ∧
      ∀ q ∈ holders, s.started q = true ∧
        (s.alive q = true → Holds (es ++ [e]) q device ∧ (sessionOf q).id = c.session.id)) :
    ClaimInv sessionOf (es ++ [e]) (s.setClaim device claim) := by
  have hself : (s.setClaim device claim).registry device = claim := Function.update_self _ _ _
  have hothers : ∀ d, d ≠ device → (s.setClaim device claim).registry d = s.registry d :=
    fun d hne => Function.update_of_ne hne _ _
  refine ⟨h.pids, h.started, ?_, ?_, ?_⟩
  · intro q d hq
    by_cases hd : d = device
    · subst hd
      exact hheld q hq
    · exact h.held q d ((hother q d hd).mp hq)
  · intro q d hq hholds
    unfold Listed
    by_cases hd : d = device
    · subst hd
      rw [hself]
      exact hlisted q hq hholds
    · rw [hothers d hd]
      exact h.listed q d hq ((hother q d hd).mp hholds)
  · intro d c hc
    by_cases hd : d = device
    · subst hd
      rw [hself] at hc
      exact hhonest c hc
    · rw [hothers d hd] at hc
      obtain ⟨holders, hholders, hne, hall⟩ := h.honest d c hc
      refine ⟨holders, hholders, hne, fun q hq => ⟨(hall q hq).1, fun hlive => ?_⟩⟩
      rw [hother q d hd]
      exact (hall q hq).2 hlive

/-- A live holder keeps its device from other sessions. -/
theorem ClaimInv.same_session (h : ClaimInv sessionOf es s) (hq : s.alive q = true)
    (hheld : Holds es q device) {session : SessionIdentity}
    (hfree : ∀ claim, s.registry device = some claim → claimIsLive s.alive claim = true →
      claim.session.id = session.id) :
    (sessionOf q).id = session.id := by
  obtain ⟨claim, holders, hclaim, hsession, hholders, hmem⟩ := h.listed q device hq hheld
  rw [← hsession]
  exact hfree claim hclaim (claimIsLive_of_mem hholders hmem hq)

theorem ClaimInv.claim (h : ClaimInv sessionOf es s) (halive : s.alive p = true) :
    ClaimInv sessionOf
      (es ++ [.claim p device daemonAddress now (s.claimAs sessionOf p device now daemonAddress).2])
      (s.setClaim device (s.claimAs sessionOf p device now daemonAddress).1) := by
  unfold Machine.claimAs
  rcases claimDevice_cases s.alive p now device (sessionOf p) daemonAddress (s.registry device) with
    ⟨holder, -, -, -, hresult⟩ | ⟨hfree, fresh, hresult⟩ <;> rw [hresult]
  · -- a refusal changes nothing
    have hholds : ∀ q d, Holds (es ++ [.claim p device daemonAddress now (.refused holder)]) q d ↔
        Holds es q d := fun q d => holds_snoc_of_neither id id
    refine h.setClaim (fun q d _ => hholds q d) (fun q hq => h.held q _ ((hholds _ _).mp hq))
      (fun q hq hheld => h.listed q _ hq ((hholds _ _).mp hheld)) ?_
    intro c hc
    obtain ⟨holders, hholders, hne, hall⟩ := h.honest device c hc
    refine ⟨holders, hholders, hne, fun q hq => ⟨(hall q hq).1, fun hlive => ?_⟩⟩
    rw [hholds]
    exact (hall q hq).2 hlive
  · have hholds : ∀ q d, Holds (es ++ [.claim p device daemonAddress now (.ok fresh)]) q d ↔
        (p = q ∧ device = d) ∨ Holds es q d := by
      intro q d
      rw [holds_snoc]
      exact or_congr Iff.rfl (and_iff_left id)
    have hmem : ∀ q, (∃ holders,
        (joinedClaim s.alive p now device (sessionOf p) daemonAddress (s.registry device)).holders =
          some holders ∧ q ∈ holders) ↔ _ := fun q => mem_joinedClaim
    refine h.setClaim ?_ ?_ ?_ ?_
    · intro q d hne
      rw [hholds]
      exact ⟨fun hor => hor.resolve_left fun hand => hne hand.2.symm, .inr⟩
    · intro q hq
      rcases (hholds q device).mp hq with ⟨rfl, -⟩ | hq
      · exact h.started _ halive
      · exact h.held q device hq
    · intro q hq hheld
      refine ⟨_, _, rfl, ?_, rfl, ?_⟩
      · rcases (hholds q device).mp hheld with ⟨rfl, -⟩ | hheld
        · rfl
        · exact (h.same_session hq hheld hfree).symm
      · have hlist : ∃ holders, (joinedClaim s.alive p now device (sessionOf p) daemonAddress
            (s.registry device)).holders = some holders ∧ q ∈ holders := by
          rw [hmem]
          rcases (hholds q device).mp hheld with ⟨rfl, -⟩ | hheld
          · exact .inl rfl
          · by_cases hqp : q = p
            · exact .inl hqp
            · refine .inr ⟨fun heq => hqp (h.pids q p hq halive heq), hq, ?_⟩
              obtain ⟨claim, holders, hclaim, hsession, hholders, hin⟩ := h.listed q device hq hheld
              exact ⟨claim, holders, hclaim, hsession.trans (h.same_session hq hheld hfree),
                hholders, hin⟩
        obtain ⟨holders, hholders, hin⟩ := hlist
        cases hholders
        exact hin
    · intro c hc
      cases hc
      refine ⟨_, rfl, List.append_ne_nil_of_right_ne_nil _ (List.cons_ne_nil _ _), ?_⟩
      intro q hq
      rcases (hmem q).mp ⟨_, rfl, hq⟩ with rfl | ⟨-, -, claim, holders, hclaim, hsame, hholders, hin⟩
      · exact ⟨h.started _ halive, fun _ => ⟨(hholds _ _).mpr (.inl ⟨rfl, rfl⟩), rfl⟩⟩
      · obtain ⟨holders', hholders', -, hall⟩ := h.honest device claim hclaim
        rw [hholders] at hholders'
        cases hholders'
        refine ⟨(hall q hin).1, fun hlive => ?_⟩
        obtain ⟨hheld, hsession⟩ := (hall q hin).2 hlive
        exact ⟨(hholds _ _).mpr (.inr hheld), hsession.trans hsame⟩

theorem ClaimInv.release (h : ClaimInv sessionOf es s) (halive : s.alive p = true) :
    ClaimInv sessionOf (es ++ [.release p device]) (s.setClaim device
      (releaseDeviceClaim s.alive p (sessionOf p) (s.registry device))) := by
  have hholds : ∀ q d, Holds (es ++ [.release p device]) q d ↔
      Holds es q d ∧ ¬ (p = q ∧ device = d) := by
    intro q d
    rw [holds_snoc]
    exact ⟨fun hor => hor.resolve_left id, .inr⟩
  have hkeeps : ∀ q, s.alive q = true → Holds es q device → q ≠ p →
      ∃ c holders, releaseDeviceClaim s.alive p (sessionOf p) (s.registry device) = some c ∧
        c.session.id = (sessionOf q).id ∧ c.holders = some holders ∧ q ∈ holders := by
    intro q hq hheld hqp
    obtain ⟨claim, holders, hclaim, hsession, hholders, hin⟩ := h.listed q device hq hheld
    rw [hclaim]
    unfold releaseDeviceClaim
    dsimp only
    by_cases hne : claim.session.id ≠ (sessionOf p).id
    · rw [if_pos hne]
      exact ⟨claim, holders, rfl, hsession, hholders, hin⟩
    · have hremaining : q ∈ (claim.holders.getD []).filter fun h =>
          h.pid ≠ p.pid && s.alive h := by
        rw [hholders, Option.getD_some, List.mem_filter, Bool.and_eq_true, decide_eq_true_iff]
        exact ⟨hin, fun heq => hqp (h.pids q p hq halive heq), hq⟩
      rw [if_neg hne, if_neg (List.ne_nil_of_mem hremaining)]
      exact ⟨_, _, rfl, hsession, rfl, hremaining⟩
  refine h.setClaim ?_ ?_ ?_ ?_
  · intro q d hne
    rw [hholds]
    exact ⟨fun hand => hand.1, fun hq => ⟨hq, fun hand => hne hand.2.symm⟩⟩
  · exact fun q hq => h.held q device ((hholds _ _).mp hq).1
  · intro q hq hheld
    obtain ⟨hheld, hnot⟩ := (hholds _ _).mp hheld
    exact hkeeps q hq hheld fun heq => hnot ⟨heq.symm, rfl⟩
  · intro c hc
    rcases mem_releaseDeviceClaim hc with ⟨hclaim, hne⟩ |
      ⟨old, hold, hsession, holders, hholders, hnonempty, hfilter⟩
    · obtain ⟨holders, hholders, hnonempty, hall⟩ := h.honest device c hclaim
      refine ⟨holders, hholders, hnonempty, fun q hq => ⟨(hall q hq).1, fun hlive => ?_⟩⟩
      obtain ⟨hheld, hsame⟩ := (hall q hq).2 hlive
      refine ⟨(hholds _ _).mpr ⟨hheld, ?_⟩, hsame⟩
      rintro ⟨rfl, -⟩
      exact hne hsame.symm
    · obtain ⟨oldHolders, holdHolders, -, hall⟩ := h.honest device old hold
      rw [holdHolders, Option.getD_some] at hfilter
      refine ⟨holders, hholders, hnonempty, fun q hq => ?_⟩
      rw [hfilter, List.mem_filter, Bool.and_eq_true, decide_eq_true_iff] at hq
      obtain ⟨hin, hpid, -⟩ := hq
      refine ⟨(hall q hin).1, fun hlive => ?_⟩
      obtain ⟨hheld, hsame⟩ := (hall q hin).2 hlive
      rw [hsession]
      refine ⟨(hholds _ _).mpr ⟨hheld, ?_⟩, hsame⟩
      rintro ⟨rfl, -⟩
      exact hpid rfl

/-- **One step.** -/
theorem ClaimInv.step (h : ClaimInv sessionOf es s) (hstep : Machine.Step sessionOf s e s') :
    ClaimInv sessionOf (es ++ [e]) s' := by
  cases hstep with
  | start hnew hpid => exact h.start hnew hpid
  | die halive => exact h.die
  | claim halive => exact h.claim halive
  | release halive => exact h.release halive

end Inv

/-! ### Exclusion -/

section Exclusive

variable {sessionOf : ProcessRef → SessionIdentity} {es : List Event} {s : Machine}

end Exclusive

end Tapsmith.Device
