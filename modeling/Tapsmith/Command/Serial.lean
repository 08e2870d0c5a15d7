import Mathlib.Algebra.Order.Ring.Int
import Mathlib.Data.Nat.Basic
import Mathlib.Data.List.Basic
import Tapsmith.Command.Connection

namespace Tapsmith.Command.Connection

/-!
# One connection

What holds of one connection, whatever the agent's threads, the network and the daemon do with it.

* `ConnInv` — commands run one at a time, are answered in the order of the requests, and are
  cancelled when the connection is closed;
* `ConnInv.agentStep`, `ConnInv.networkStep` — the agent and the network keep it;
* `ConnInv.next_answer` — the only answer there can be is the one to the last request;
* `rank`, `agentStep_rank` — how much there is left to do at a connection that is closed.
-/

variable {C R : Type} {conn conn' : Conn C R}

/-! ### The invariant -/

/-- The lines that were sent but not run. -/
def Conn.pending (conn : Conn C R) : List (Request C) :=
  match conn.serve with
  | .reading => conn.toAgent.map (·.request)
  | .waiting line => line.request :: conn.toAgent.map (·.request)
  | .ended => []

structure RunInv (run : Run C R) : Prop where
  wrote : run.wrote = true → run.phase = .written ∨ run.phase = .returned
  written : run.phase = .written → run.wrote = true
  dropped : run.phase = .returned → run.wrote = true ∨ run.cancelled = true
  answer : ∀ answer ∈ run.answer, answer.request = run.line.request

structure ConnInv (conn : Conn C R) : Prop where
  run : ∀ run ∈ conn.runs, RunInv run
  serial : ∀ run ∈ conn.runs.dropLast, run.phase = .returned
  lines : conn.runs.map (·.line.request) ++ conn.pending <+: conn.sent
  answers : conn.written.map (·.request) =
    (conn.runs.filter (·.wrote)).map (·.line.request)
  unread : conn.got ++ conn.toDaemon <+: conn.written
  whole : conn.carries = true → conn.got ++ conn.toDaemon = conn.written
  read : conn.got.map (·.request) <+: conn.sent
  outstanding : conn.sent.length ≤ conn.got.length + 1
  ended : conn.serve.isEnded = true →
    ∀ run ∈ conn.runs, run.cancelled = true ∨ run.phase = .returned
  cancelled : ∀ run ∈ conn.runs, run.cancelled = true → conn.serve.isEnded = true

/-- Every request of the connection was answered. -/
def Conn.Idle (conn : Conn C R) : Prop := conn.sent.length = conn.got.length

theorem ConnInv.init : ConnInv ({} : Conn C R) := by
  constructor <;> simp [Conn.pending, Serve.isEnded]

/-! ### The threads of the commands -/

/-- Only the thread of the last command is still at work. -/
theorem ConnInv.last_run (hinv : ConnInv conn) {i : ℕ} {run : Run C R}
    (hrun : conn.runs[i]? = some run) (hphase : run.phase ≠ .returned) :
    ∃ front, conn.runs = front ++ [run] ∧ i = front.length := by
  rcases List.eq_nil_or_concat conn.runs with hnil | ⟨front, last, hruns⟩
  · rw [hnil] at hrun
    cases hrun
  · rw [List.concat_eq_append] at hruns
    have hlt : i < (front ++ [last]).length := by
      rw [← hruns]
      exact (List.getElem?_eq_some_iff.mp hrun).1
    rw [List.length_append, List.length_singleton] at hlt
    rw [hruns] at hrun
    rcases Nat.lt_or_ge i front.length with hi | hi
    · rw [List.getElem?_append_left hi] at hrun
      refine absurd (hinv.serial run ?_) hphase
      rw [hruns, List.dropLast_concat]
      exact List.mem_of_getElem? hrun
    · obtain rfl : i = front.length := by omega
      rw [List.getElem?_concat_length] at hrun
      obtain rfl := Option.some.inj hrun
      exact ⟨front, hruns, rfl⟩

theorem ConnInv.updateRun (hinv : ConnInv conn) {i : ℕ} {phase : Phase}
    {f : Run C R → Run C R} (hphase : phase ≠ .returned)
    (h : conn.updateRun i phase f = some conn') :
    ∃ front run, conn.runs = front ++ [run] ∧ i = front.length ∧ run.phase = phase ∧
      conn' = { conn with runs := front ++ [f run] } := by
  unfold Conn.updateRun at h
  obtain ⟨run, hrun, hguard⟩ := Option.bind_eq_some_iff.mp h
  split at hguard
  · rename_i hat
    obtain ⟨front, hruns, rfl⟩ := hinv.last_run hrun (hat ▸ hphase)
    obtain rfl := Option.some.inj hguard
    refine ⟨front, run, hruns, rfl, hat, ?_⟩
    rw [hruns, List.set_append_right _ _ (Nat.le_refl _), Nat.sub_self]
    rfl
  · cases hguard

/-- A step of the last command's thread that writes nothing. -/
theorem ConnInv.stepRun (hinv : ConnInv conn) {front : List (Run C R)} {run run' : Run C R}
    (hruns : conn.runs = front ++ [run]) (hrun : RunInv run') (hline : run'.line = run.line)
    (hwrote : run'.wrote = run.wrote) (hcancelled : run'.cancelled = run.cancelled)
    (hended : run.phase = .returned → run'.phase = .returned) :
    ConnInv { conn with runs := front ++ [run'] } := by
  have hmap : (front ++ [run']).map (·.line.request) = conn.runs.map (·.line.request) := by
    rw [hruns, List.map_append, List.map_append, List.map_singleton, List.map_singleton, hline]
  constructor
  case run =>
    intro r hr
    rw [List.mem_append, List.mem_singleton] at hr
    rcases hr with hr | rfl
    · exact hinv.run r (hruns ▸ List.mem_append_left _ hr)
    · exact hrun
  case serial =>
    intro r hr
    refine hinv.serial r ?_
    rw [hruns, List.dropLast_concat]
    rwa [List.dropLast_concat] at hr
  case lines =>
    show (front ++ [run']).map (·.line.request) ++ conn.pending <+: conn.sent
    rw [hmap]
    exact hinv.lines
  case answers =>
    rw [hinv.answers, hruns, List.filter_append, List.filter_append, List.map_append,
      List.map_append]
    cases hw : run.wrote <;> simp [hw, hwrote, hline]
  case unread => exact hinv.unread
  case whole => exact hinv.whole
  case read => exact hinv.read
  case outstanding => exact hinv.outstanding
  case ended =>
    intro hend r hr
    rw [List.mem_append, List.mem_singleton] at hr
    rcases hr with hr | rfl
    · exact hinv.ended hend r (hruns ▸ List.mem_append_left _ hr)
    · rw [hcancelled]
      refine (hinv.ended hend run ?_).imp id hended
      rw [hruns]
      exact List.mem_append_right _ (List.mem_singleton.mpr rfl)
  case cancelled =>
    intro r hr hcancel
    rw [List.mem_append, List.mem_singleton] at hr
    rcases hr with hr | rfl
    · exact hinv.cancelled r (hruns ▸ List.mem_append_left _ hr) hcancel
    · refine hinv.cancelled run ?_ (hcancelled ▸ hcancel)
      rw [hruns]
      exact List.mem_append_right _ (List.mem_singleton.mpr rfl)

theorem ConnInv.write (hinv : ConnInv conn) {front : List (Run C R)} {run : Run C R}
    {answer : Answer C R} (hruns : conn.runs = front ++ [run]) (hphase : run.phase = .checked)
    (hanswer : run.answer = some answer) :
    ConnInv { conn with
      runs := front ++ [{ run with phase := .written, wrote := true }]
      written := conn.written ++ [answer]
      toDaemon := conn.toDaemon ++ if conn.carries then [answer] else [] } := by
  have hmem : run ∈ conn.runs := by
    rw [hruns]
    exact List.mem_append_right _ (List.mem_singleton.mpr rfl)
  have hrun := hinv.run run hmem
  have hnot : run.wrote = false := by
    cases hw : run.wrote with
    | false => rfl
    | true => rcases hrun.wrote hw with h | h <;> rw [hphase] at h <;> cases h
  have hmap : (front ++ [({ run with phase := .written, wrote := true } : Run C R)]).map
      (·.line.request) = conn.runs.map (·.line.request) := by
    rw [hruns, List.map_append, List.map_append]
    rfl
  constructor
  case run =>
    intro r hr
    rw [List.mem_append, List.mem_singleton] at hr
    rcases hr with hr | rfl
    · exact hinv.run r (hruns ▸ List.mem_append_left _ hr)
    · exact ⟨fun _ => .inl rfl, fun _ => rfl, fun _ => .inl rfl, hrun.answer⟩
  case serial =>
    intro r hr
    refine hinv.serial r ?_
    rw [hruns, List.dropLast_concat]
    rwa [List.dropLast_concat] at hr
  case lines =>
    show (front ++ [({ run with phase := .written, wrote := true } : Run C R)]).map
      (·.line.request) ++ conn.pending <+: conn.sent
    rw [hmap]
    exact hinv.lines
  case answers =>
    rw [List.map_append, hinv.answers, hruns, List.filter_append, List.filter_append]
    simp [hnot, hrun.answer answer hanswer]
  case unread =>
    rw [← List.append_assoc]
    cases hcarries : conn.carries with
    | false =>
      rw [if_neg (by simp), List.append_nil]
      exact hinv.unread.trans (List.prefix_append _ _)
    | true =>
      simp only [if_true, hinv.whole hcarries, List.prefix_rfl]
  case whole =>
    intro h
    have hcarries : conn.carries = true := h
    show conn.got ++ (conn.toDaemon ++ if conn.carries then [answer] else []) = _
    rw [if_pos hcarries, ← List.append_assoc, hinv.whole hcarries]
  case read => exact hinv.read
  case outstanding => exact hinv.outstanding
  case ended =>
    intro hend r hr
    rw [List.mem_append, List.mem_singleton] at hr
    rcases hr with hr | rfl
    · exact hinv.ended hend r (hruns ▸ List.mem_append_left _ hr)
    · refine (hinv.ended hend run hmem).imp id fun hreturned => ?_
      rw [hphase] at hreturned
      cases hreturned
  case cancelled =>
    intro r hr hcancel
    rw [List.mem_append, List.mem_singleton] at hr
    rcases hr with hr | rfl
    · exact hinv.cancelled r (hruns ▸ List.mem_append_left _ hr) hcancel
    · exact hinv.cancelled run hmem hcancel

/-! ### The thread that reads -/

theorem ConnInv.recv (hinv : ConnInv conn) {line : Line C} {rest : List (Line C)}
    (hserve : conn.serve = .reading) (hlines : conn.toAgent = line :: rest) :
    ConnInv { conn with toAgent := rest, serve := .waiting line } := by
  have hpending : conn.pending = line.request :: rest.map (·.request) := by
    simp [Conn.pending, hserve, hlines]
  have hnot : conn.serve.isEnded = false := by rw [hserve]; rfl
  have hcarries : conn.carries =
      Conn.carries { conn with toAgent := rest, serve := .waiting line } := by
    simp [Conn.carries, hserve, Serve.isEnded]
  refine { hinv with
    lines := ?_, whole := fun h => hinv.whole (hcarries.trans h)
    ended := fun h => absurd h Bool.false_ne_true, cancelled := fun run hrun hcancel => ?_ }
  · have h := hinv.lines
    rwa [hpending] at h
  · have h := hinv.cancelled run hrun hcancel
    rw [hnot] at h
    cases h

theorem ConnInv.start (hinv : ConnInv conn) {line : Line C}
    (hserve : conn.serve = .waiting line) (hdone : conn.inFlightDone = true) :
    ConnInv { conn with serve := .reading, runs := conn.runs ++ [{ line }] } := by
  have hnot : conn.serve.isEnded = false := by rw [hserve]; rfl
  have hall : ∀ run ∈ conn.runs, run.phase = .returned := by
    intro run hrun
    rcases List.eq_nil_or_concat conn.runs with hnil | ⟨front, last, hruns⟩
    · rw [hnil] at hrun
      cases hrun
    · rw [List.concat_eq_append] at hruns
      unfold Conn.inFlightDone at hdone
      rw [hruns, List.getLast?_concat, Option.all_some, decide_eq_true_iff] at hdone
      rw [hruns, List.mem_append, List.mem_singleton] at hrun
      rcases hrun with hrun | rfl
      · refine hinv.serial run ?_
        rwa [hruns, List.dropLast_concat]
      · exact hdone
  constructor
  case run =>
    intro r hr
    rw [List.mem_append, List.mem_singleton] at hr
    rcases hr with hr | rfl
    · exact hinv.run r hr
    · exact ⟨by simp, by simp, by simp, by simp⟩
  case serial =>
    intro r hr
    rw [List.dropLast_concat] at hr
    exact hall r hr
  case lines =>
    have hlines := hinv.lines
    have hpending : conn.pending = line.request :: conn.toAgent.map (·.request) := by
      simp [Conn.pending, hserve]
    rw [hpending] at hlines
    show (conn.runs ++ [({ line } : Run C R)]).map (·.line.request) ++
      conn.toAgent.map (·.request) <+: conn.sent
    rw [List.map_append, List.map_singleton, List.append_assoc, List.singleton_append]
    exact hlines
  case answers =>
    rw [hinv.answers, List.filter_append, List.map_append]
    simp
  case unread => exact hinv.unread
  case whole =>
    intro h
    refine hinv.whole (Eq.trans ?_ h)
    simp [Conn.carries, hserve, Serve.isEnded]
  case read => exact hinv.read
  case outstanding => exact hinv.outstanding
  case ended => exact fun h => absurd h Bool.false_ne_true
  case cancelled =>
    intro r hr hcancel
    rw [List.mem_append, List.mem_singleton] at hr
    rcases hr with hr | rfl
    · have h := hinv.cancelled r hr hcancel
      rw [hnot] at h
      cases h
    · cases hcancel

/-- The token of the command that was started last is cancelled; the commands before it are over. -/
theorem ConnInv.endServe (hinv : ConnInv conn) : ConnInv conn.endServe := by
  rcases List.eq_nil_or_concat conn.runs with hnil | ⟨front, last, hruns⟩
  · have heq : conn.endServe = { conn with serve := .ended } := by
      unfold Conn.endServe
      rw [hnil]
      rfl
    rw [heq]
    refine { hinv with
      lines := ?_, whole := fun h => ?_, ended := fun _ run hrun => ?_
      cancelled := fun _ _ _ => rfl }
    · show conn.runs.map (·.line.request) ++ [] <+: conn.sent
      rw [hnil]
      exact List.nil_prefix
    · simp [Conn.carries, Serve.isEnded] at h
    · exact absurd (hnil ▸ hrun) List.not_mem_nil
  · rw [List.concat_eq_append] at hruns
    have hlast : last ∈ conn.runs := by
      rw [hruns]
      exact List.mem_append_right _ (List.mem_singleton.mpr rfl)
    have hrun := hinv.run last hlast
    have hfront : ∀ run ∈ front, run.phase = .returned := by
      intro run hr
      refine hinv.serial run ?_
      rwa [hruns, List.dropLast_concat]
    have heq : conn.endServe =
        { conn with serve := .ended, runs := front ++ [{ last with cancelled := true }] } := by
      unfold Conn.endServe
      rw [hruns, List.dropLast_concat, List.getLast?_concat]
      rfl
    have hmap : (front ++ [({ last with cancelled := true } : Run C R)]).map (·.line.request) =
        conn.runs.map (·.line.request) := by
      rw [hruns, List.map_append, List.map_append]
      rfl
    rw [heq]
    constructor
    case run =>
      intro r hr
      rw [List.mem_append, List.mem_singleton] at hr
      rcases hr with hr | rfl
      · exact hinv.run r (hruns ▸ List.mem_append_left _ hr)
      · exact ⟨hrun.wrote, hrun.written, fun _ => .inr rfl, hrun.answer⟩
    case serial =>
      intro r hr
      rw [List.dropLast_concat] at hr
      exact hfront r hr
    case lines =>
      show (front ++ [({ last with cancelled := true } : Run C R)]).map (·.line.request) ++ [] <+:
        conn.sent
      rw [hmap, List.append_nil]
      exact (List.prefix_append _ _).trans hinv.lines
    case answers =>
      rw [hinv.answers, hruns, List.filter_append, List.filter_append, List.map_append,
        List.map_append]
      cases hw : last.wrote <;> simp [hw]
    case unread => exact hinv.unread
    case whole =>
      intro h
      simp [Conn.carries, Serve.isEnded] at h
    case read => exact hinv.read
    case outstanding => exact hinv.outstanding
    case ended =>
      intro _ r hr
      rw [List.mem_append, List.mem_singleton] at hr
      rcases hr with hr | rfl
      · exact .inr (hfront r hr)
      · exact .inl rfl
    case cancelled => exact fun _ _ _ => rfl

/-! ### Steps -/

/-- What the daemon sees of a connection: whether it holds the stream, what it sent and what it
    read. -/
structure SameStream (conn conn' : Conn C R) : Prop where
  opened : conn'.opened = conn.opened
  sent : conn'.sent = conn.sent
  got : conn'.got = conn.got
  written : conn.written <+: conn'.written

theorem SameStream.of_written (hopened : conn'.opened = conn.opened) (hsent : conn'.sent = conn.sent)
    (hgot : conn'.got = conn.got) (hwritten : conn'.written = conn.written) :
    SameStream conn conn' :=
  ⟨hopened, hsent, hgot, hwritten ▸ List.prefix_rfl⟩

theorem ConnInv.agentStep (hinv : ConnInv conn) {action : AgentAction R}
    (h : agentStep conn action = some conn') : ConnInv conn' ∧ SameStream conn conn' := by
  unfold Connection.agentStep at h
  split at h
  · -- a line is read
    split at h
    · rename_i line rest hserve hlines
      obtain rfl := Option.some.inj h
      exact ⟨hinv.recv hserve hlines, .of_written rfl rfl rfl rfl⟩
    · cases h
  · -- its command is started
    split at h
    · rename_i line hserve
      split at h
      · rename_i hdone
        obtain rfl := Option.some.inj h
        exact ⟨hinv.start hserve hdone, .of_written rfl rfl rfl rfl⟩
      · cases h
    · cases h
  · -- the connection was closed
    split at h
    · split at h
      · obtain rfl := Option.some.inj h
        exact ⟨hinv.endServe, .of_written rfl rfl rfl rfl⟩
      · cases h
    · cases h
  · split at h
    · cases h
    · obtain rfl := Option.some.inj h
      exact ⟨hinv.endServe, .of_written rfl rfl rfl rfl⟩
  · -- a command is done
    rename_i i response withId
    obtain ⟨front, run, hruns, rfl, hphase, rfl⟩ := hinv.updateRun (by decide) h
    have hrun := hinv.run run (hruns ▸ List.mem_append_right _ (List.mem_singleton.mpr rfl))
    refine ⟨hinv.stepRun hruns ⟨fun hw => ?_, by simp, by simp, by simp [answerTo]⟩ rfl rfl rfl
      fun hreturned => ?_, .of_written rfl rfl rfl rfl⟩
    · rcases hrun.wrote hw with hp | hp <;> rw [hphase] at hp <;> cases hp
    · rw [hphase] at hreturned
      cases hreturned
  · -- the answer is dropped, or will be written
    rename_i i
    obtain ⟨front, run, hruns, rfl, hphase, rfl⟩ := hinv.updateRun (by decide) h
    have hrun := hinv.run run (hruns ▸ List.mem_append_right _ (List.mem_singleton.mpr rfl))
    refine ⟨hinv.stepRun hruns ⟨fun hw => ?_, fun hp => ?_, fun hp => ?_, hrun.answer⟩ rfl rfl rfl
      fun hreturned => ?_, .of_written rfl rfl rfl rfl⟩
    · rcases hrun.wrote hw with hp | hp <;> rw [hphase] at hp <;> cases hp
    · dsimp only at hp
      split at hp <;> cases hp
    · dsimp only at hp
      split at hp
      · rename_i hcancelled
        exact .inr hcancelled
      · cases hp
    · rw [hphase] at hreturned
      cases hreturned
  · -- it is written
    rename_i i
    obtain ⟨run₀, hrun₀, h⟩ := Option.bind_eq_some_iff.mp h
    obtain ⟨answer, hanswer, h⟩ := Option.bind_eq_some_iff.mp h
    obtain ⟨conn₁, hupdate, rfl⟩ := Option.map_eq_some_iff.mp h
    obtain ⟨front, run, hruns, rfl, hphase, rfl⟩ := hinv.updateRun (by decide) hupdate
    have heq : run₀ = run := by
      rw [hruns, List.getElem?_concat_length] at hrun₀
      exact (Option.some.inj hrun₀).symm
    subst heq
    exact ⟨hinv.write hruns hphase hanswer, rfl, rfl, rfl, List.prefix_append _ _⟩
  · -- the thread returns
    rename_i i
    obtain ⟨front, run, hruns, rfl, hphase, rfl⟩ := hinv.updateRun (by decide) h
    have hrun := hinv.run run (hruns ▸ List.mem_append_right _ (List.mem_singleton.mpr rfl))
    refine ⟨hinv.stepRun hruns ⟨fun _ => .inr rfl, by simp, fun _ => .inl (hrun.written hphase),
      hrun.answer⟩ rfl rfl rfl fun _ => rfl, .of_written rfl rfl rfl rfl⟩

theorem ConnInv.networkStep (hinv : ConnInv conn) {action : NetworkAction}
    (h : networkStep conn action = some conn') : ConnInv conn' ∧ SameStream conn conn' := by
  unfold Connection.networkStep at h
  split at h
  · obtain rfl := Option.some.inj h
    refine ⟨{ hinv with whole := fun hcarries => ?_ },
      .of_written rfl rfl rfl rfl⟩
    simp [Conn.carries] at hcarries
  · split at h
    · rename_i n m hlossy
      obtain rfl := Option.some.inj h
      refine ⟨{ hinv with lines := ?_, unread := ?_, whole := fun hcarries => ?_ },
      .of_written rfl rfl rfl rfl⟩
      · refine List.IsPrefix.trans ?_ hinv.lines
        rw [List.prefix_append_right_inj]
        unfold Conn.pending
        cases conn.serve with
        | reading => exact (List.take_prefix _ _).map _
        | waiting line =>
          rw [List.cons_prefix_cons]
          exact ⟨rfl, (List.take_prefix _ _).map _⟩
        | ended => exact List.prefix_rfl
      · refine List.IsPrefix.trans ?_ hinv.unread
        rw [List.prefix_append_right_inj]
        exact List.take_prefix _ _
      · simp only [Conn.carries, Bool.and_eq_true, Bool.not_eq_true'] at hcarries
        rcases hlossy with h' | h' | h'
        · rw [hcarries.1.2] at h'
          cases h'
        · rw [hcarries.1.1] at h'
          cases h'
        · rw [hcarries.2] at h'
          cases h'
    · cases h

/-! ### The daemon's side -/

theorem ConnInv.close (hinv : ConnInv conn) : ConnInv conn.close :=
  { hinv with whole := fun h => by simp [Conn.close, Conn.carries] at h }

/-- There are at least as many commands as answers that were written. -/
theorem ConnInv.written_le (hinv : ConnInv conn) : conn.written.length ≤ conn.runs.length := by
  have h := congrArg List.length hinv.answers
  rw [List.length_map, List.length_map] at h
  rw [h]
  exact List.length_filter_le _ _

theorem ConnInv.got_le (hinv : ConnInv conn) :
    conn.got.length + conn.toDaemon.length ≤ conn.written.length := by
  have h := hinv.unread.length_le
  rwa [List.length_append] at h

theorem ConnInv.runs_le (hinv : ConnInv conn) :
    conn.runs.length + conn.pending.length ≤ conn.sent.length := by
  have h := hinv.lines.length_le
  rwa [List.length_append, List.length_map] at h

/-- Nothing is on its way over a connection on which every request was answered. -/
theorem ConnInv.idle (hinv : ConnInv conn) (hidle : conn.Idle) :
    conn.pending = [] ∧ conn.toDaemon = [] ∧ conn.got.map (·.request) = conn.sent ∧
      conn.runs.map (·.line.request) = conn.sent := by
  have hwritten := hinv.written_le
  have hgot := hinv.got_le
  have hruns := hinv.runs_le
  have hlen : conn.sent.length = conn.got.length := hidle
  have hpending : conn.pending = [] := List.eq_nil_of_length_eq_zero (by omega)
  refine ⟨hpending, List.eq_nil_of_length_eq_zero (by omega),
    hinv.read.eq_of_length (by rw [List.length_map, hlen]), ?_⟩
  have hlines := hinv.lines
  rw [hpending, List.append_nil] at hlines
  exact hlines.eq_of_length (by rw [List.length_map]; omega)

theorem ConnInv.send (hinv : ConnInv conn) (hidle : conn.Idle) (request : Request C)
    (whole : Bool) : ConnInv (conn.send request whole) := by
  obtain ⟨hpending, -, hgot, hruns⟩ := hinv.idle hidle
  refine { hinv with lines := ?_, read := ?_, outstanding := ?_ }
  · show conn.runs.map (·.line.request) ++ (conn.send request whole).pending <+:
      conn.sent ++ [request]
    rw [hruns, List.prefix_append_right_inj]
    unfold Conn.pending at hpending ⊢
    unfold Conn.send
    dsimp only
    cases hserve : conn.serve with
    | reading =>
      rw [hserve] at hpending
      dsimp only at hpending ⊢
      rw [List.map_append, hpending]
      split
      · exact List.prefix_rfl
      · exact List.nil_prefix
    | waiting line =>
      rw [hserve] at hpending
      cases hpending
    | ended => exact List.nil_prefix
  · exact hinv.read.trans (List.prefix_append _ _)
  · have hlen : conn.sent.length = conn.got.length := hidle
    show (conn.sent ++ [request]).length ≤ _
    rw [List.length_append, hlen]
    exact Nat.le_refl _

/-- While a request is not answered, the only answer that can come is the one to it. -/
theorem ConnInv.next_answer (hinv : ConnInv conn) {request : Request C}
    (hsent : conn.sent = conn.got.map (·.request) ++ [request]) {answer : Answer C R}
    {rest : List (Answer C R)} (hanswers : conn.toDaemon = answer :: rest) :
    answer.request = request := by
  have hsub : ((conn.got ++ [answer]).map (·.request)).Sublist
      (conn.got.map (·.request) ++ [request]) := by
    have hinitial : conn.got ++ [answer] <+: conn.written := by
      refine List.IsPrefix.trans ?_ hinv.unread
      rw [hanswers, List.prefix_append_right_inj, List.cons_prefix_cons]
      exact ⟨rfl, List.nil_prefix⟩
    refine ((hinitial.map _).sublist).trans ?_
    rw [hinv.answers]
    refine (List.filter_sublist.map _).trans ?_
    rw [← hsent]
    exact ((List.prefix_append _ _).trans hinv.lines).sublist
  rw [List.map_append, List.append_sublist_append_left, List.map_singleton,
    List.singleton_sublist, List.mem_singleton] at hsub
  exact hsub

theorem ConnInv.take (hinv : ConnInv conn) {request : Request C}
    (hsent : conn.sent = conn.got.map (·.request) ++ [request]) {answer : Answer C R}
    (h : conn.take = some (answer, conn')) :
    ConnInv conn' ∧ answer.request = request ∧ conn'.Idle ∧ conn'.sent = conn.sent ∧
      conn'.opened = conn.opened ∧ answer ∈ conn.written ∧ conn'.written = conn.written := by
  unfold Conn.take at h
  split at h
  · cases h
  · rename_i answer' rest hanswers
    obtain ⟨rfl, rfl⟩ := Prod.mk.inj (Option.some.inj h)
    have hanswer := hinv.next_answer hsent hanswers
    have hmoved : conn.got ++ [answer'] ++ rest = conn.got ++ conn.toDaemon := by
      rw [hanswers, List.append_assoc, List.singleton_append]
    have hlen : conn.sent.length = conn.got.length + 1 := by
      rw [hsent, List.length_append, List.length_map, List.length_singleton]
    refine ⟨{ hinv with unread := ?_, whole := fun h => ?_, read := ?_, outstanding := ?_ },
      hanswer, ?_, rfl, rfl, ?_, rfl⟩
    · show conn.got ++ [answer'] ++ rest <+: conn.written
      rw [hmoved]
      exact hinv.unread
    · show conn.got ++ [answer'] ++ rest = conn.written
      rw [hmoved]
      exact hinv.whole h
    · show (conn.got ++ [answer']).map (·.request) <+: conn.sent
      simp only [List.map_append, List.map_singleton, hanswer, hsent, List.prefix_rfl]
    · show conn.sent.length ≤ (conn.got ++ [answer']).length + 1
      rw [List.length_append, List.length_singleton]
      omega
    · show conn.sent.length = (conn.got ++ [answer']).length
      rw [List.length_append, List.length_singleton]
      exact hlen
    · refine hinv.unread.subset ?_
      rw [hanswers]
      exact List.mem_append_right _ List.mem_cons_self

/-! ### Until the connection is closed -/

/-- The steps a thread of a command has left. -/
def Phase.left : Phase → ℕ
  | .handling => 4
  | .handled => 3
  | .checked => 2
  | .written => 1
  | .returned => 0

/-- What the thread that reads has left to do, where nothing more is sent. -/
def rank (conn : Conn C R) : ℕ :=
  match conn.serve with
  | .reading => 8 * conn.toAgent.length + 1 + (conn.runs.map (·.phase.left)).sum
  | .waiting _ => 8 * conn.toAgent.length + 7 + (conn.runs.map (·.phase.left)).sum
  | .ended => 0

/-- The steps of the thread that reads, and the return of a thread that has written its answer. -/
def AgentAction.Serving : AgentAction R → Prop
  | .recv => True
  | .start => True
  | .eof => True
  | .done _ => True
  | _ => False

theorem rank_endServe : rank conn.endServe = 0 := rfl

theorem rank_stepRun {front : List (Run C R)} {run run' : Run C R} (hruns : conn.runs = front ++ [run])
    (hleft : run'.phase.left < run.phase.left) :
    rank { conn with runs := front ++ [run'] } ≤ rank conn ∧
      (conn.serve.isEnded = false → rank { conn with runs := front ++ [run'] } < rank conn) := by
  have hsum : ((front ++ [run']).map (·.phase.left)).sum < (conn.runs.map (·.phase.left)).sum := by
    rw [hruns, List.map_append, List.map_append, List.sum_append, List.sum_append]
    simpa using hleft
  unfold rank
  dsimp only
  split
  · exact ⟨by omega, fun _ => by omega⟩
  · exact ⟨by omega, fun _ => by omega⟩
  · rename_i hserve
    refine ⟨Nat.le_refl _, fun hnot => ?_⟩
    rw [hserve] at hnot
    cases hnot

/-- No step of the agent adds to what is left to do, and the steps of the thread that reads take
    something off it. -/
theorem ConnInv.agentStep_rank (hinv : ConnInv conn) {action : AgentAction R}
    (h : Connection.agentStep conn action = some conn') :
    rank conn' ≤ rank conn ∧
      (action.Serving → conn.serve.isEnded = false → rank conn' < rank conn) := by
  unfold Connection.agentStep at h
  split at h
  · split at h
    · rename_i line rest hserve hlines
      obtain rfl := Option.some.inj h
      have hlt : rank { conn with toAgent := rest, serve := .waiting line } < rank conn := by
        unfold rank
        rw [hserve, hlines]
        dsimp only
        rw [List.length_cons]
        omega
      exact ⟨Nat.le_of_lt hlt, fun _ _ => hlt⟩
    · cases h
  · split at h
    · rename_i line hserve
      split at h
      · obtain rfl := Option.some.inj h
        have hlt : rank { conn with serve := .reading, runs := conn.runs ++ [{ line }] } <
            rank conn := by
          unfold rank
          rw [hserve]
          dsimp only
          rw [List.map_append, List.sum_append, List.map_singleton, List.sum_singleton]
          show _ + (_ + 4) < _
          omega
        exact ⟨Nat.le_of_lt hlt, fun _ _ => hlt⟩
      · cases h
    · cases h
  · split at h
    · rename_i hserve hlines
      split at h
      · obtain rfl := Option.some.inj h
        refine ⟨Nat.zero_le _, fun _ _ => ?_⟩
        rw [rank_endServe]
        unfold rank
        rw [hserve]
        dsimp only
        omega
      · cases h
    · cases h
  · split at h
    · cases h
    · obtain rfl := Option.some.inj h
      exact ⟨Nat.zero_le _, fun hserving => hserving.elim⟩
  · obtain ⟨front, run, hruns, -, hphase, rfl⟩ := hinv.updateRun (by decide) h
    refine ⟨(rank_stepRun hruns ?_).1, fun hserving => hserving.elim⟩
    rw [hphase]
    show Phase.left .handled < Phase.left .handling
    decide
  · obtain ⟨front, run, hruns, -, hphase, rfl⟩ := hinv.updateRun (by decide) h
    refine ⟨(rank_stepRun hruns ?_).1, fun hserving => hserving.elim⟩
    rw [hphase]
    dsimp only
    split <;> decide
  · obtain ⟨run₀, -, h⟩ := Option.bind_eq_some_iff.mp h
    obtain ⟨answer, -, h⟩ := Option.bind_eq_some_iff.mp h
    obtain ⟨conn₁, hupdate, rfl⟩ := Option.map_eq_some_iff.mp h
    obtain ⟨front, run, hruns, -, hphase, rfl⟩ := hinv.updateRun (by decide) hupdate
    refine ⟨(rank_stepRun hruns ?_).1, fun hserving => hserving.elim⟩
    rw [hphase]
    show Phase.left .written < Phase.left .checked
    decide
  · obtain ⟨front, run, hruns, -, hphase, rfl⟩ := hinv.updateRun (by decide) h
    have hleft : Phase.left .returned < run.phase.left := by
      rw [hphase]
      decide
    exact ⟨(rank_stepRun hruns hleft).1, fun _ => (rank_stepRun hruns hleft).2⟩

theorem networkStep_rank {action : NetworkAction} (h : networkStep conn action = some conn') :
    rank conn' ≤ rank conn := by
  unfold networkStep at h
  split at h
  · obtain rfl := Option.some.inj h
    exact Nat.le_refl _
  · split at h
    · rename_i n m _
      obtain rfl := Option.some.inj h
      have hle : (conn.toAgent.take n).length ≤ conn.toAgent.length := List.length_take_le' _ _
      unfold rank
      dsimp only
      split <;> omega
    · cases h

/-- A line waits only for a thread that has written its answer. -/
theorem ConnInv.waiting_wrote (hinv : ConnInv conn) {line : Line C}
    (hserve : conn.serve = .waiting line) : ∀ run ∈ conn.runs, run.wrote = true := by
  have hpending : conn.pending.length = conn.toAgent.length + 1 := by
    simp [Conn.pending, hserve]
  have hruns := hinv.runs_le
  have hgot := hinv.got_le
  have houtstanding := hinv.outstanding
  have hwritten := congrArg List.length hinv.answers
  rw [List.length_map, List.length_map] at hwritten
  have hle : (conn.runs.filter (·.wrote)).length ≤ conn.runs.length := List.length_filter_le _ _
  have hall : (conn.runs.filter (·.wrote)).length = conn.runs.length := by omega
  exact List.length_filter_eq_length_iff.mp hall

/-- On a connection that the daemon has closed, the thread that reads is never held up by a command
    that runs: it can go on until it ends. -/
theorem ConnInv.progress (hinv : ConnInv conn) (hclosed : conn.opened = false)
    (hserve : conn.serve.isEnded = false) :
    ∃ action : AgentAction R, action.Serving ∧ (Connection.agentStep conn action).isSome := by
  cases hs : conn.serve with
  | ended =>
    rw [hs] at hserve
    cases hserve
  | reading =>
    cases hlines : conn.toAgent with
    | nil =>
      refine ⟨.eof, trivial, ?_⟩
      simp [Connection.agentStep, hs, hlines, hclosed]
    | cons line rest =>
      refine ⟨.recv, trivial, ?_⟩
      simp [Connection.agentStep, hs, hlines]
  | waiting line =>
    cases hdone : conn.inFlightDone with
    | true =>
      refine ⟨.start, trivial, ?_⟩
      simp [Connection.agentStep, hs, hdone]
    | false =>
      rcases List.eq_nil_or_concat conn.runs with hnil | ⟨front, last, hruns⟩
      · simp [Conn.inFlightDone, hnil] at hdone
      · rw [List.concat_eq_append] at hruns
        have hlast : last ∈ conn.runs := by
          rw [hruns]
          exact List.mem_append_right _ (List.mem_singleton.mpr rfl)
        have hnot : last.phase ≠ .returned := by
          rw [Conn.inFlightDone, hruns, List.getLast?_concat] at hdone
          simpa using hdone
        have hwritten : last.phase = .written :=
          ((hinv.run last hlast).wrote (hinv.waiting_wrote hs last hlast)).resolve_right hnot
        refine ⟨.done front.length, trivial, ?_⟩
        simp [Connection.agentStep, Conn.updateRun, hruns, hwritten]

end Tapsmith.Command.Connection
